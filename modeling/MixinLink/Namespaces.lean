import MixinLink.Failure

/-!
# Namespaces

A mapping table leads from one namespace to another. The two have different names, neither of them
empty.

Main exports: `Namespaces`, `Namespaces.ofPair`, `Namespaces.ofList`, `Namespaces.requireNames`.
-/

namespace MixinLink

/-- The names of the namespace that mappings lead from and of the one they lead to. -/
structure Namespaces where
  obfuscated : String
  deobfuscated : String
  obfuscated_ne : obfuscated ≠ ""
  deobfuscated_ne : deobfuscated ≠ ""
  distinct : obfuscated ≠ deobfuscated
deriving DecidableEq

namespace Namespaces

/-- The names used if nothing else is said. -/
def standard : Namespaces :=
  ⟨"official", "named", by decide, by decide, by decide⟩

/-- Both names in order. -/
def names (namespaces : Namespaces) : List String :=
  [namespaces.obfuscated, namespaces.deobfuscated]

/-- Checks two names. -/
def ofPair (obfuscated deobfuscated : String) : Checked Namespaces :=
  if empty : obfuscated = "" ∨ deobfuscated = "" then
    Checked.refuse (.emptyNamespace obfuscated deobfuscated)
  else if same : obfuscated = deobfuscated then
    Checked.refuse (.duplicateNamespace obfuscated)
  else
    .ok ⟨obfuscated, deobfuscated, fun h => empty (.inl h), fun h => empty (.inr h), same⟩

/-- Checks a list that should have exactly two names. -/
def ofList : List String → Checked Namespaces
  | [obfuscated, deobfuscated] => ofPair obfuscated deobfuscated
  | names => Checked.refuse (.namespaceCount names)

/-- Checks that the names are exactly the expected ones. -/
def requireNames (namespaces : Namespaces) (expected : List String) : Checked Unit :=
  if namespaces.names = expected then .ok ()
  else Checked.refuse (.namespaceMismatch expected namespaces.names)

/-- The namespaces as messages show them. -/
def shown (namespaces : Namespaces) : String :=
  "Namespaces " ++ Text.shownList namespaces.names

end Namespaces

end MixinLink
