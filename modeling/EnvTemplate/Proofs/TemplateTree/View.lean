import EnvTemplate.Proofs.Expansion.View
import EnvTemplate.TemplateTree

/-! Renderings against stores that are seen as other stores.  Whatever is done to the files is the same for
both, and what is left in the store is seen in the other one. -/
namespace EnvTemplate
namespace TemplateTree

variable {σ τ : Type} [VariableStore σ] [VariableStore τ]

variable {f : σ → τ} {w : World σ} {w' : World τ}

end TemplateTree
end EnvTemplate
