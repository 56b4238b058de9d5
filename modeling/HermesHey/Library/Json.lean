import Mathlib.Data.List.Sort
import HermesHey.Library.Decimal

/-! JSON values, their text, and a scanner with the grammar of a scripting
language's standard decoder: `object_pairs_hook` is a parameter, integers keep
arbitrary precision up to a digit limit, and the last of two equal keys wins
unless the hook says otherwise. -/
namespace Library.Json

/-- A decoded JSON document. A float keeps its literal, since nothing here
computes with one. -/
inductive Value where
  | null
  | bool (b : Bool)
  | int (n : Int)
  | float (literal : Text)
  | str (s : Text)
  | arr (elements : List Value)
  | obj (members : List (Text × Value))
  deriving Repr, Inhabited

abbrev Members := List (Text × Value)

mutual
/-- Structural equality of documents is decidable. -/
def Value.decEq : (a b : Value) → Decidable (a = b)
  | .null, .null => isTrue rfl
  | .bool a, .bool b => decidable_of_iff (a = b) (by simp)
  | .int a, .int b => decidable_of_iff (a = b) (by simp)
  | .float a, .float b => decidable_of_iff (a = b) (by simp)
  | .str a, .str b => decidable_of_iff (a = b) (by simp)
  | .arr a, .arr b => @decidable_of_iff _ (a = b) (by simp) (elementsDecEq a b)
  | .obj a, .obj b => @decidable_of_iff _ (a = b) (by simp) (membersDecEq a b)
  | .null, .bool _ | .null, .int _ | .null, .float _ | .null, .str _ | .null, .arr _
  | .null, .obj _ | .bool _, .null | .bool _, .int _ | .bool _, .float _ | .bool _, .str _
  | .bool _, .arr _ | .bool _, .obj _ | .int _, .null | .int _, .bool _ | .int _, .float _
  | .int _, .str _ | .int _, .arr _ | .int _, .obj _ | .float _, .null | .float _, .bool _
  | .float _, .int _ | .float _, .str _ | .float _, .arr _ | .float _, .obj _ | .str _, .null
  | .str _, .bool _ | .str _, .int _ | .str _, .float _ | .str _, .arr _ | .str _, .obj _
  | .arr _, .null | .arr _, .bool _ | .arr _, .int _ | .arr _, .float _ | .arr _, .str _
  | .arr _, .obj _ | .obj _, .null | .obj _, .bool _ | .obj _, .int _ | .obj _, .float _
  | .obj _, .str _ | .obj _, .arr _ => isFalse (by simp)

def elementsDecEq : (a b : List Value) → Decidable (a = b)
  | [], [] => isTrue rfl
  | x :: xs, y :: ys =>
    @decidable_of_iff _ (x = y ∧ xs = ys) (by simp)
      (@instDecidableAnd _ _ (Value.decEq x y) (elementsDecEq xs ys))
  | [], _ :: _ | _ :: _, [] => isFalse (by simp)

def membersDecEq : (a b : Members) → Decidable (a = b)
  | [], [] => isTrue rfl
  | (k, x) :: xs, (l, y) :: ys =>
    @decidable_of_iff _ ((k = l ∧ x = y) ∧ xs = ys) (by simp)
      (@instDecidableAnd _ _ (@instDecidableAnd _ _ inferInstance (Value.decEq x y))
        (membersDecEq xs ys))
  | [], _ :: _ | _ :: _, [] => isFalse (by simp)
end

instance : DecidableEq Value := Value.decEq

/-! ## Dictionaries -/

/-- Assigning to a key keeps the position of its first insertion. -/
def dictSet (dict : Members) (key : Text) (value : Value) : Members :=
  if key ∈ dict.map Prod.fst then dict.map fun member => if member.1 = key then (key, value) else member
  else dict ++ [(key, value)]

/-- The dictionary of a list of pairs: the last of two equal keys wins. -/
def dictOfPairs (pairs : Members) : Members :=
  pairs.foldl (fun dict member => dictSet dict member.1 member.2) []

/-- The dictionaries' keys agree as sets. -/
def sameKeys (keys expected : List Text) : Bool :=
  decide (keys ⊆ expected) && decide (expected ⊆ keys)

/-- Equality of dictionaries, whatever the insertion order. -/
def sameDict (a b : Members) : Bool :=
  sameKeys (a.map Prod.fst) (b.map Prod.fst) && a.all fun member => b.lookup member.1 == some member.2

/-! ## Text of a value -/

/-- A lower-case hexadecimal digit. -/
def hexDigit (n : Nat) : Char := Nat.digitChar n

/-- One element of a quoted string, without escaping what is not ASCII. -/
def escape : CodePoint → Text
  | .scalar '"' => [ch '\\', ch '"']
  | .scalar '\\' => [ch '\\', ch '\\']
  | .scalar '\n' => [ch '\\', ch 'n']
  | .scalar '\r' => [ch '\\', ch 'r']
  | .scalar '\t' => [ch '\\', ch 't']
  | .scalar c =>
    if c.toNat = 0x0C then [ch '\\', ch 'f']
    else if c.toNat = 0x08 then [ch '\\', ch 'b']
    else if c.toNat < 0x20 then
      [ch '\\', ch 'u', ch '0', ch '0', ch (hexDigit (c.toNat / 16)), ch (hexDigit (c.toNat % 16))]
    else [.scalar c]
  | .surrogate offset => [.surrogate offset]

def quote (s : Text) : Text := ch '"' :: s.flatMap escape ++ [ch '"']

mutual
/-- The text of a value with the separators `", "` and `": "`. -/
def render : Value → Text
  | .null => text "null"
  | .bool true => text "true"
  | .bool false => text "false"
  | .int n => decimalInt n
  | .float literal => literal
  | .str s => quote s
  | .arr elements => ch '[' :: renderElements elements
  | .obj members => ch '\x7b' :: renderMembers members

/-- The elements of an array and its closing bracket. -/
def renderElements : List Value → Text
  | [] => [ch ']']
  | [last] => render last ++ [ch ']']
  | first :: rest => render first ++ ch ',' :: ch ' ' :: renderElements rest

/-- The members of an object and its closing brace. -/
def renderMembers : Members → Text
  | [] => [ch '\x7d']
  | [(key, last)] => quote key ++ ch ':' :: ch ' ' :: (render last ++ [ch '\x7d'])
  | (key, first) :: rest =>
    quote key ++ ch ':' :: ch ' ' :: (render first ++ ch ',' :: ch ' ' :: renderMembers rest)
end

mutual
/-- Every object's members in key order. -/
def sortKeys : Value → Value
  | .arr elements => .arr (sortElements elements)
  | .obj members => .obj ((sortMembers members).insertionSort fun a b => Text.le a.1 b.1)
  | value => value

def sortElements : List Value → List Value
  | [] => []
  | first :: rest => sortKeys first :: sortElements rest

def sortMembers : Members → Members
  | [] => []
  | (key, first) :: rest => (key, sortKeys first) :: sortMembers rest
end

/-- The longest numeral that converts between integers and strings. -/
@[irreducible] def digitLimit : Nat := 4300

theorem digitLimit_pos : 0 < digitLimit := by
  unfold digitLimit
  decide

mutual
/-- No integer inside exceeds the conversion limit. -/
def intsFit : Value → Bool
  | .int n => decide (n.natAbs < 10 ^ digitLimit)
  | .arr elements => elementsFit elements
  | .obj members => membersFit members
  | _ => true

def elementsFit : List Value → Bool
  | [] => true
  | first :: rest => intsFit first && elementsFit rest

def membersFit : Members → Bool
  | [] => true
  | (_, first) :: rest => intsFit first && membersFit rest
end

/-- `dumps(value, ensure_ascii=False, sort_keys=True)`; an integer over the
conversion limit raises. -/
def dumps (value : Value) : Option Text :=
  if intsFit value then some (render (sortKeys value)) else none

/-! ## Scanning -/

inductive ScanError where
  /-- Not a JSON document. -/
  | malformed
  /-- The pairs hook refused an object. -/
  | refused
  /-- A numeral over the conversion limit. -/
  | digits
  /-- The recursion bound of the scanner, which `loads` never reaches. -/
  | depth
  deriving DecidableEq, Repr

def isSpace : CodePoint → Bool
  | .scalar c => c = ' ' || c = '\t' || c = '\n' || c = '\r'
  | .surrogate _ => false

def skipSpace (t : Text) : Text := t.dropWhile isSpace

def hexValue : CodePoint → Option Nat
  | .scalar c =>
    if '0' ≤ c ∧ c ≤ '9' then some (c.toNat - '0'.toNat)
    else if 'a' ≤ c ∧ c ≤ 'f' then some (c.toNat - 'a'.toNat + 10)
    else if 'A' ≤ c ∧ c ≤ 'F' then some (c.toNat - 'A'.toNat + 10)
    else none
  | .surrogate _ => none

/-- The code unit of a `\uXXXX` escape. -/
def hexUnit (a b c d : CodePoint) : Option Nat := do
  return (((← hexValue a) * 16 + (← hexValue b)) * 16 + (← hexValue c)) * 16 + (← hexValue d)

/-- A scanned piece of a string: escaped code units still have to be paired. -/
inductive Piece where
  | plain (point : CodePoint)
  | unit (value : Nat)

def simpleEscape : Char → Option Char
  | '"' => some '"'
  | '\\' => some '\\'
  | '/' => some '/'
  | 'b' => some '\x08'
  | 'f' => some '\x0c'
  | 'n' => some '\n'
  | 'r' => some '\r'
  | 't' => some '\t'
  | _ => none

/-- The pieces of a string after its opening quote, up to the closing one. -/
def scanPieces : Text → Option (List Piece × Text)
  | [] => none
  | .scalar '"' :: rest => some ([], rest)
  | .scalar '\\' :: .scalar 'u' :: a :: b :: c :: d :: rest => do
    let unit ← hexUnit a b c d
    let (pieces, after) ← scanPieces rest
    return (.unit unit :: pieces, after)
  | .scalar '\\' :: .scalar c :: rest => do
    let meaning ← simpleEscape c
    let (pieces, after) ← scanPieces rest
    return (.plain (.scalar meaning) :: pieces, after)
  | .scalar '\\' :: _ => none
  | point :: rest =>
    if point.code < 0x20 then none
    else do
      let (pieces, after) ← scanPieces rest
      return (.plain point :: pieces, after)

def isHigh (unit : Nat) : Bool := decide (0xD800 ≤ unit ∧ unit ≤ 0xDBFF)

def isLow (unit : Nat) : Bool := decide (0xDC00 ≤ unit ∧ unit ≤ 0xDFFF)

/-- Two adjacent escapes of a surrogate pair are one code point. -/
def joinPieces : List Piece → Text
  | [] => []
  | .plain point :: rest => point :: joinPieces rest
  | .unit high :: .unit low :: rest =>
    if isHigh high && isLow low then
      .scalar (Char.ofNat (0x10000 + (high - 0xD800) * 0x400 + (low - 0xDC00))) :: joinPieces rest
    else CodePoint.ofUnit high :: joinPieces (.unit low :: rest)
  | .unit unit :: rest => CodePoint.ofUnit unit :: joinPieces rest

def scanString (t : Text) : Except ScanError (Text × Text) :=
  match scanPieces t with
  | some (pieces, after) => .ok (joinPieces pieces, after)
  | none => .error .malformed

/-- The optional fraction and exponent of a number literal. -/
def spanFraction (t : Text) : Text × Text :=
  match t with
  | .scalar '.' :: rest =>
    match spanDigits rest with
    | ([], _) => ([], t)
    | (digits, after) => (ch '.' :: digits, after)
  | _ => ([], t)

def spanExponent (t : Text) : Text × Text :=
  match t with
  | .scalar e :: rest =>
    if e = 'e' ∨ e = 'E' then
      match rest with
      | .scalar sign :: tail =>
        if sign = '+' ∨ sign = '-' then
          match spanDigits tail with
          | ([], _) => ([], t)
          | (digits, after) => (ch e :: ch sign :: digits, after)
        else
          match spanDigits rest with
          | ([], _) => ([], t)
          | (digits, after) => (ch e :: digits, after)
      | _ => ([], t)
    else ([], t)
  | _ => ([], t)

/-- `0|[1-9][0-9]*` -/
def spanInteger (t : Text) : Option (Text × Text) :=
  match t with
  | .scalar '0' :: rest => some ([ch '0'], rest)
  | _ => spanPositive t

/-- A number after its sign. -/
def scanMagnitude (negative : Bool) (t : Text) : Except ScanError (Value × Text) :=
  match spanInteger t with
  | none => .error .malformed
  | some (digits, afterDigits) =>
    let (fraction, afterFraction) := spanFraction afterDigits
    let (exponent, after) := spanExponent afterFraction
    if fraction = [] ∧ exponent = [] then
      if digits.length ≤ digitLimit then
        let magnitude : Int := digitsValue digits
        .ok (.int (if negative then -magnitude else magnitude), after)
      else .error .digits
    else .ok (.float ((if negative then [ch '-'] else []) ++ digits ++ fraction ++ exponent), after)

/-- A literal name, or a number. -/
def scanAtom (t : Text) : Except ScanError (Value × Text) :=
  match t with
  | .scalar 'n' :: .scalar 'u' :: .scalar 'l' :: .scalar 'l' :: rest => .ok (.null, rest)
  | .scalar 't' :: .scalar 'r' :: .scalar 'u' :: .scalar 'e' :: rest => .ok (.bool true, rest)
  | .scalar 'f' :: .scalar 'a' :: .scalar 'l' :: .scalar 's' :: .scalar 'e' :: rest =>
    .ok (.bool false, rest)
  | .scalar 'N' :: .scalar 'a' :: .scalar 'N' :: rest => .ok (.float (text "NaN"), rest)
  | .scalar 'I' :: rest =>
    if (text "nfinity").isPrefixOf rest then .ok (.float (text "Infinity"), rest.drop 7)
    else .error .malformed
  | .scalar '-' :: rest =>
    if (text "Infinity").isPrefixOf rest then .ok (.float (text "-Infinity"), rest.drop 8)
    else scanMagnitude true rest
  | _ => scanMagnitude false t

section
variable (hook : Members → Except ScanError Value)

mutual
/-- One value, with the recursion bounded by `depth`. -/
def scanValue : Nat → Text → Except ScanError (Value × Text)
  | 0, _ => .error .depth
  | _ + 1, .scalar '"' :: rest => do
    let (s, after) ← scanString rest
    return (.str s, after)
  | depth + 1, .scalar '\x7b' :: rest =>
    match skipSpace rest with
    | .scalar '\x7d' :: after => do return (← hook [], after)
    | .scalar '"' :: after => scanMembers depth after []
    | _ => .error .malformed
  | depth + 1, .scalar '[' :: rest =>
    match skipSpace rest with
    | .scalar ']' :: after => .ok (.arr [], after)
    | after => scanElements depth after []
  | _ + 1, t => scanAtom t

/-- The members of an object from inside the first key's opening quote. -/
def scanMembers : Nat → Text → Members → Except ScanError (Value × Text)
  | 0, _, _ => .error .depth
  | depth + 1, t, collected => do
    let (key, afterKey) ← scanString t
    match skipSpace afterKey with
    | .scalar ':' :: afterColon =>
      let (value, afterValue) ← scanValue depth (skipSpace afterColon)
      match skipSpace afterValue with
      | .scalar '\x7d' :: after => do return (← hook (collected ++ [(key, value)]), after)
      | .scalar ',' :: afterComma =>
        match skipSpace afterComma with
        | .scalar '"' :: after => scanMembers depth after (collected ++ [(key, value)])
        | _ => .error .malformed
      | _ => .error .malformed
    | _ => .error .malformed

/-- The elements of a nonempty array. -/
def scanElements : Nat → Text → List Value → Except ScanError (Value × Text)
  | 0, _, _ => .error .depth
  | depth + 1, t, collected => do
    let (value, afterValue) ← scanValue depth t
    match skipSpace afterValue with
    | .scalar ']' :: after => return (.arr (collected ++ [value]), after)
    | .scalar ',' :: afterComma => scanElements depth (skipSpace afterComma) (collected ++ [value])
    | _ => .error .malformed
end

/-- `loads(text, object_pairs_hook=hook)` -/
def loads (t : Text) : Except ScanError Value :=
  match t with
  | .scalar '\ufeff' :: _ => .error .malformed
  | _ => do
    let (value, after) ← scanValue hook (2 * t.length + 2) (skipSpace t)
    if skipSpace after = [] then return value else .error .malformed
end

/-- The hook of a plain `loads`. -/
def plainHook (pairs : Members) : Except ScanError Value := .ok (.obj (dictOfPairs pairs))

end Library.Json
