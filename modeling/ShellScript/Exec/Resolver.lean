import ShellScript.Exec.Run

/-!
# Resolvers

A resolver supplies the text of the elements that are not literal. `Element.resolve` asks it only while
the run is not cancelled. A `VariableMap` is the plain resolver: names with values, an unknown name is
empty, and there is neither a modifier nor a substitution.
-/

namespace ShellScript

/-- The source of the text of references and substitutions. -/
structure Resolver [Output] where
  resolveVariable : VariableRef → Action String
  runSubstitution : CommandSubstitution → Action String :=
    fun _ => throw (.unsupported "command substitution")

/-- The text of an element. A separator has none. -/
def Element.resolve [Output] (resolver : Resolver) : Element → Action String
  | .literal l => pure l.text
  | .reference v => do
    Action.checkCancelled
    resolver.resolveVariable v
  | .substitution s => do
    Action.checkCancelled
    resolver.runSubstitution s
  | .separator _ => pure ""

/-- The text of a token: that of its elements, in order. -/
def Token.resolve [Output] (resolver : Resolver) (t : Token) : Action String := do
  return String.join (← t.elements.mapM (Element.resolve resolver))

/-- The arguments that a command stands for: the texts of its tokens. The first is its name. -/
def Command.argv [Output] (resolver : Resolver) (c : Command) : Action (List String) :=
  c.tokens.mapM (Token.resolve resolver)

/-- Values by name, each name once. -/
structure VariableMap where
  entries : List (String × String) := []
  deriving Repr, Inhabited

namespace VariableMap

/-- The value of a name. -/
def get? (m : VariableMap) (name : String) : Option String :=
  m.entries.lookup name

/-- Gives a name a value, in place of the one it had. -/
def set (m : VariableMap) (name value : String) : VariableMap :=
  ⟨(name, value) :: m.entries.filter (·.1 != name)⟩

/-- The number of names. -/
def size (m : VariableMap) : Nat := m.entries.length

/-- Whether no name has a value. -/
def isEmpty (m : VariableMap) : Bool := m.entries.isEmpty

/-- The map of some pairs; of two values for a name, the later one counts. -/
def ofList (pairs : List (String × String)) : VariableMap :=
  pairs.foldl (fun m pair => m.set pair.1 pair.2) {}

/-- Setting changes the value of one name and no other. -/
theorem get?_set (m : VariableMap) (name value other : String) :
    (m.set name value).get? other = if other = name then some value else m.get? other := by
  obtain ⟨entries⟩ := m
  unfold get? set
  by_cases h : other = name
  · simp [h]
  · have hb : (other == name) = false := by simpa using h
    simp only [List.lookup_cons, hb, h, if_false]
    induction entries with
    | nil => rfl
    | cons entry rest ih =>
      obtain ⟨n, v⟩ := entry
      by_cases hn : n = name
      · have : (other == n) = false := by simpa [hn] using h
        simpa [hn, List.lookup_cons, hb] using ih
      · simp only [List.filter_cons, bne_iff_ne, ne_eq, hn, not_false_eq_true, if_true,
          List.lookup_cons, ih]

/-- The map as a resolver. -/
def toResolver [Output] (m : VariableMap) : Resolver where
  resolveVariable v :=
    match v.modifier with
    | some _ => throw (.unsupported ("parameter expansion `" ++ v.toSource ++ "`"))
    | none => pure ((m.get? v.name).getD "")

end VariableMap

end ShellScript
