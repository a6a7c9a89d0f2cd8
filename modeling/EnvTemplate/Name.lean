import EnvTemplate.Text

/-!
Variable names.  A name is a letter or an underscore followed by letters, digits and underscores,
all of them ASCII, and is at most 64 characters long.
-/
namespace EnvTemplate
namespace Name

def maxLength : Nat := 64

def isStart (c : Char) : Bool := c.isAlpha || c == '_'

def isPart (c : Char) : Bool := c.isAlphanum || c == '_'

theorem isPart_of_isStart {c : Char} (h : isStart c = true) : isPart c = true := by
  simp only [isStart, isPart, Char.isAlphanum, Bool.or_eq_true] at h ⊢
  rcases h with h | h
  · exact Or.inl (Or.inl h)
  · exact Or.inr h

def isValid : Text → Bool
  | [] => false
  | c :: t => isStart c && t.all isPart && decide (t.length < maxLength)

/-- The longest run of name characters at the head of a text, cut at the longest name. -/
def run (t : Text) : Text := (t.take maxLength).takeWhile isPart

theorem isPart_of_isValid {n : Text} (h : isValid n = true) {c : Char} (hc : c ∈ n) :
    isPart c = true := by
  cases n with
  | nil => simp at hc
  | cons d t =>
    simp only [isValid, Bool.and_eq_true, List.all_eq_true] at h
    rcases List.mem_cons.1 hc with rfl | hc
    · exact isPart_of_isStart h.1.1
    · exact h.1.2 c hc

theorem not_mem_equals_of_isValid {n : Text} (h : isValid n = true) : '=' ∉ n :=
  fun hc => absurd (isPart_of_isValid h hc) (by decide)

theorem length_le_of_isValid {n : Text} (h : isValid n = true) : n.length ≤ maxLength := by
  cases n with
  | nil => simp
  | cons d t =>
    simp only [isValid, Bool.and_eq_true, decide_eq_true_eq] at h
    exact h.2

end Name
end EnvTemplate
