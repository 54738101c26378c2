/-! Values kept by name. A name has at most one value; giving it a new one keeps its place. -/

namespace LineGrammar

abbrev Registry (α : Type) := List (String × α)

namespace Registry

variable {α : Type}

def find? (registry : Registry α) (name : String) : Option α :=
  match registry with
  | [] => none
  | (key, value) :: rest => if key = name then some value else find? rest name

def insert (registry : Registry α) (name : String) (value : α) : Registry α :=
  match registry with
  | [] => [(name, value)]
  | (key, old) :: rest =>
    if key = name then (name, value) :: rest else (key, old) :: insert rest name value

def names (registry : Registry α) : List String :=
  (registry.map (·.1)).mergeSort fun a b => decide (a ≤ b)

end Registry

end LineGrammar
