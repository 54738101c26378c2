import LineGrammar.Text.Quoted

/-! One-line descriptions of values for developers: lists in brackets, records with the names of
their fields, and two dots where a record has more than it shows. -/

namespace LineGrammar.Text

def describeList (items : List String) : String := "[" ++ ", ".intercalate items ++ "]"

def describePairs (pairs : List (String × String)) : String :=
  "\x7b" ++ ", ".intercalate (pairs.map fun (key, value) => key ++ ": " ++ value) ++ "\x7d"

def describeBool (value : Bool) : String := if value then "true" else "false"

def describeRecord (title : String) (fields : List (String × String)) (more : Bool) : String :=
  let shown := fields.map (fun (name, value) => name ++ ": " ++ value) ++
    if more then [".."] else []
  title ++ " \x7b " ++ ", ".intercalate shown ++ " \x7d"

end LineGrammar.Text
