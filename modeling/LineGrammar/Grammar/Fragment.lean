/-! Pieces of pattern text that know which capture groups they open. -/

namespace LineGrammar

/-- `groups` lists the identifiers of the capture groups in the order of their parentheses. -/
structure Fragment where
  source : String
  groups : List Nat
  deriving DecidableEq, Repr

namespace Fragment

def empty : Fragment := ⟨"", []⟩

def raw (source : String) : Fragment := ⟨source, []⟩

def append (first second : Fragment) : Fragment :=
  ⟨first.source ++ second.source, first.groups ++ second.groups⟩

instance : Append Fragment := ⟨append⟩

@[simp] theorem source_append (first second : Fragment) :
    (first ++ second).source = first.source ++ second.source := rfl

@[simp] theorem groups_append (first second : Fragment) :
    (first ++ second).groups = first.groups ++ second.groups := rfl

def concat (parts : List Fragment) : Fragment :=
  ⟨String.join (parts.map (·.source)), parts.flatMap (·.groups)⟩

def choice (branches : List Fragment) : Fragment :=
  ⟨"(?:" ++ "|".intercalate (branches.map (·.source)) ++ ")", branches.flatMap (·.groups)⟩

def grouped (body : Fragment) : Fragment := raw "(?:" ++ body ++ raw ")"

def capture (group : Nat) (body : Fragment) : Fragment := ⟨"(", [group]⟩ ++ body ++ raw ")"

def negativeLook (body : Fragment) : Fragment := raw "(?!" ++ body ++ raw ")"

end Fragment

end LineGrammar
