/-! JSON values and their compact text: no blanks, the members of an object in the order of their
keys, and an escape only where JSON needs one. -/

namespace LineGrammar

inductive JsonValue
  | null
  | bool (value : Bool)
  | number (value : Int)
  | text (value : String)
  | list (items : List JsonValue)
  | object (members : List (String × JsonValue))

namespace JsonValue

def hexDigit (n : Nat) : Char := (Nat.digitChar (n % 16))

def escapeChar (c : Char) : List Char :=
  if c = '"' then ['\\', '"']
  else if c = '\\' then ['\\', '\\']
  else if c = '\n' then ['\\', 'n']
  else if c = '\r' then ['\\', 'r']
  else if c = '\t' then ['\\', 't']
  else if c = '\x08' then ['\\', 'b']
  else if c = '\x0c' then ['\\', 'f']
  else if c.toNat < 0x20 then ['\\', 'u', '0', '0', hexDigit (c.toNat / 16), hexDigit c.toNat]
  else [c]

def renderText (value : String) : String :=
  String.ofList ('"' :: value.toList.flatMap escapeChar ++ ['"'])

mutual

def render : JsonValue → String
  | .null => "null"
  | .bool value => if value then "true" else "false"
  | .number value => toString value
  | .text value => renderText value
  | .list items => "[" ++ ",".intercalate (renderAll items) ++ "]"
  | .object members =>
    let sorted := (renderMembers members).mergeSort fun a b => decide (a.1 ≤ b.1)
    "\x7b" ++ ",".intercalate (sorted.map fun (key, value) => renderText key ++ ":" ++ value) ++
      "\x7d"

def renderAll : List JsonValue → List String
  | [] => []
  | value :: rest => value.render :: renderAll rest

def renderMembers : List (String × JsonValue) → List (String × String)
  | [] => []
  | (key, value) :: rest => (key, value.render) :: renderMembers rest

end

def ofOption {α : Type} (f : α → JsonValue) : Option α → JsonValue
  | none => .null
  | some value => f value

end JsonValue

end LineGrammar
