import Docking.Json.Value
/-!
# Writing JSON

`JsonValue.render` writes a value as compact JSON text. An object lists each name once, with its
last value, in the order of names. A string escapes the quote, the backslash and the control
characters: by their one-letter escapes where there is one, by four lowercase hex digits
otherwise. An integer is written in decimal, and a float as the shortest decimal of its digits:
positionally, with `.0` after a whole number, when its decimal point falls within 16 digits of
its first and not more than 5 places before it, and with an exponent `e` otherwise.
-/

namespace Docking

namespace JsonValue

/-- A hex digit, lowercase. -/
def hexDigit (n : Nat) : Char :=
  if n < 10 then Char.ofNat (48 + n) else Char.ofNat (87 + n)

/-- The text of a character inside a written string. -/
def escapeChar (c : Char) : String :=
  if c = '"' then "\\\""
  else if c = '\\' then "\\\\"
  else if c = '\n' then "\\n"
  else if c = '\r' then "\\r"
  else if c = '\t' then "\\t"
  else if c.toNat = 8 then "\\b"
  else if c.toNat = 12 then "\\f"
  else if c.toNat < 32 then
    "\\u00" ++ String.singleton (hexDigit (c.toNat / 16)) ++ String.singleton (hexDigit (c.toNat % 16))
  else String.singleton c

/-- A string as written in JSON, quotes included. -/
def quote (s : String) : String :=
  "\"" ++ String.join (s.toList.map escapeChar) ++ "\""

/-- The decimal digits of a significand, less its trailing zeros, with the exponent made up for
them. -/
def trimZeros (sig : Nat) (exp : Int) : Nat → Nat × Int
  | 0 => (sig, exp)
  | fuel + 1 => if sig % 10 = 0 then trimZeros (sig / 10) (exp + 1) fuel else (sig, exp)

/-- A float from its sign, significand and exponent. -/
def floatText (negative : Bool) (sig : Nat) (exp : Int) : String :=
  let sign := if negative then "-" else ""
  if sig = 0 then sign ++ "0.0" else
  let (m, k) := trimZeros sig exp (toString sig).length
  let ds := toString m
  let n : Int := ds.length
  let point := n + k
  let body :=
    if 0 ≤ k ∧ point ≤ 16 then ds ++ String.ofList (List.replicate k.toNat '0') ++ ".0"
    else if 0 < point ∧ point ≤ 16 then
      String.ofList (ds.toList.take point.toNat) ++ "." ++ String.ofList (ds.toList.drop point.toNat)
    else if -5 < point ∧ point ≤ 0 then
      "0." ++ String.ofList (List.replicate (-point).toNat '0') ++ ds
    else
      let mantissa := match ds.toList with
        | [d] => String.singleton d
        | d :: rest => String.singleton d ++ "." ++ String.ofList rest
        | [] => ""
      mantissa ++ "e" ++ toString (point - 1)
  sign ++ body

mutual

/-- The compact text of a value. -/
def render : JsonValue → String
  | .null => "null"
  | .bool b => if b then "true" else "false"
  | .int i => toString i
  | .float negative sig exp => floatText negative sig exp
  | .str s => quote s
  | .arr items => "[" ++ ",".intercalate (renderItems items) ++ "]"
  | .obj fields =>
    let kept := (renderFields fields).foldl (fun acc (k, t) => Keyed.insert k t acc) []
    "\x7b" ++ ",".intercalate (kept.map fun (k, t) => quote k ++ ":" ++ t) ++ "\x7d"

/-- The texts of the items of an array. -/
def renderItems : List JsonValue → List String
  | [] => []
  | x :: xs => render x :: renderItems xs

/-- The names and value texts of the fields of an object, as written. -/
def renderFields : List (String × JsonValue) → List (String × String)
  | [] => []
  | (k, x) :: rest => (k, render x) :: renderFields rest

end

end JsonValue

end Docking
