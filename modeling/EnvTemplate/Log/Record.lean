import EnvTemplate.Journal

/-!
What a note says: its level, its target, its message and its fields.
-/
namespace EnvTemplate
namespace Log

inductive Level
  | error
  | warn
  | info
  | debug
  | trace
  deriving DecidableEq

namespace Level

def name : Level → Text
  | error => "ERROR".toList
  | warn => "WARN".toList
  | info => "INFO".toList
  | debug => "DEBUG".toList
  | trace => "TRACE".toList

def rank : Level → Nat
  | error => 1
  | warn => 2
  | info => 3
  | debug => 4
  | trace => 5

end Level

/-- The value of a field: a string, or text that is shown as it is. -/
inductive FieldValue
  | string (t : Text)
  | shown (t : Text)

structure Record where
  level : Level
  target : Text
  message : Text
  fields : List (Text × FieldValue)

def Record.ofEvent : Event → Record
  | .keptLiteral var =>
    ⟨.debug, "oxidize_env::expand::engine".toList, "unset variable kept as literal".toList,
      [("var".toList, .string var)]⟩
  | .assigning var value =>
    ⟨.debug, "oxidize_env::expand::engine".toList, "assigning default".toList,
      [("var".toList, .string var), ("value".toList, .string value)]⟩
  | .refused var =>
    ⟨.warn, "oxidize_env::store".toList, "value contains NUL, not exported to environment".toList,
      [("var".toList, .string var)]⟩
  | .ignored key kind =>
    ⟨.debug, "oxidize_env::vars".toList, "ignoring TOML value".toList,
      [("key".toList, .string key), ("kind".toList, .string kind.name)]⟩
  | .unreadable dir e =>
    ⟨.warn, "oxidize_env::render".toList,
      "skipping unreadable entry: IO error for operation on ".toList ++ Utf8.lossy dir ++
        ": ".toList ++ e.message, []⟩
  | .rendered template =>
    ⟨.debug, "oxidize_env::render".toList, "rendered".toList,
      [("template".toList, .shown (Utf8.lossy template))]⟩
  | .published count out =>
    ⟨.info, "oxidize_env".toList, "rendered templates".toList,
      [("count".toList, .shown (Nat.toDigits 10 count)),
        ("out".toList, .shown (Utf8.lossy out))]⟩

end Log
end EnvTemplate
