import HermesHey.Library.Strconv
import HermesHey.Library.Text

/-! `encoding/json` on bytes: the scanner, what a decoder makes of strings and
names, and decoding into the fields of a structure. -/
namespace Library.GoJson
open Strconv (bytes)

abbrev Bytes := List UInt8

/-- A decoded value. Strings are as the decoder reads them, numbers keep their literals. -/
inductive Value where
  | null
  | bool (b : Bool)
  | number (literal : Bytes)
  | string (s : Text)
  | array (elements : List Value)
  | object (members : List (Text × Value))
  deriving Repr, Inhabited

abbrev Members := List (Text × Value)

def Value.string? : Value → Option Text
  | .string s => some s
  | _ => none

/-! ## The scanner -/

def quote : UInt8 := '"'.toUInt8

def backslash : UInt8 := '\\'.toUInt8

/-- `maxNestingDepth` -/
def maxNestingDepth : ℕ := 10000

/-- `isSpace` -/
def isSpace (c : UInt8) : Bool :=
  c = ' '.toUInt8 || c = '\t'.toUInt8 || c = '\r'.toUInt8 || c = '\n'.toUInt8

def skipSpace (s : Bytes) : Bytes := s.dropWhile isSpace

/-- What follows the byte `d`, which white space may precede. -/
def expect (d : UInt8) (s : Bytes) : Option Bytes :=
  match skipSpace s with
  | [] => none
  | c :: rest => if c = d then some rest else none

/-- The value of a hexadecimal digit. -/
def hexValue (c : UInt8) : Option ℕ :=
  if '0'.toUInt8 ≤ c ∧ c ≤ '9'.toUInt8 then some (c.toNat - '0'.toNat)
  else if 'a'.toUInt8 ≤ c ∧ c ≤ 'f'.toUInt8 then some (c.toNat - 'a'.toNat + 10)
  else if 'A'.toUInt8 ≤ c ∧ c ≤ 'F'.toUInt8 then some (c.toNat - 'A'.toNat + 10)
  else none

/-- Where the scanner is inside a string. -/
inductive InString where
  /-- `stateInString` -/
  | plain
  /-- `stateInStringEsc` -/
  | esc
  /-- `stateInStringEscU` and the states after it, with the digits left after the next -/
  | escU (left : ℕ)
  deriving DecidableEq

/-- The state after one byte of a string that does not close it. -/
def InString.step (state : InString) (c : UInt8) : Option InString :=
  match state with
  | .plain => if c = quote ∨ c < 0x20 then none else if c = backslash then some .esc else some .plain
  | .esc => if c ∈ bytes "bfnrt\\/\"" then some .plain else if c = 'u'.toUInt8 then some (.escU 3) else none
  | .escU left => (hexValue c).map fun _ => if left = 0 then .plain else .escU (left - 1)

/-- The bytes up to the closing quote, and those after it. -/
def scanString (state : InString) : Bytes → Option (Bytes × Bytes)
  | [] => none
  | c :: rest =>
    if state = .plain ∧ c = quote then some ([], rest)
    else
      match state.step c with
      | none => none
      | some next => (scanString next rest).map fun found => (c :: found.1, found.2)

/-- Where the scanner is inside a number. -/
inductive InNumber where
  /-- `stateNeg` -/
  | neg
  /-- `state0` -/
  | zero
  /-- `state1` -/
  | digits
  /-- `stateDot` -/
  | dot
  /-- `stateDot0` -/
  | fraction
  /-- `stateE` -/
  | exponent
  /-- `stateESign` -/
  | sign
  /-- `stateE0` -/
  | power
  deriving DecidableEq

def isDigit (c : UInt8) : Bool := '0'.toUInt8 ≤ c && c ≤ '9'.toUInt8

/-- The state after the first byte of a number. -/
def InNumber.start (c : UInt8) : Option InNumber :=
  if c = '-'.toUInt8 then some .neg
  else if c = '0'.toUInt8 then some .zero
  else if isDigit c then some .digits
  else none

/-- The state after one more byte of a number. -/
def InNumber.step (state : InNumber) (c : UInt8) : Option InNumber :=
  match state with
  | .neg => if c = '0'.toUInt8 then some .zero else if isDigit c then some .digits else none
  | .digits => if isDigit c then some .digits else afterDigits
  | .zero => afterDigits
  | .dot => if isDigit c then some .fraction else none
  | .fraction => if isDigit c then some .fraction else afterFraction
  | .exponent => if c = '+'.toUInt8 ∨ c = '-'.toUInt8 then some .sign else if isDigit c then some .power else none
  | .sign => if isDigit c then some .power else none
  | .power => if isDigit c then some .power else none
where
  afterFraction := if c = 'e'.toUInt8 ∨ c = 'E'.toUInt8 then some InNumber.exponent else none
  afterDigits := if c = '.'.toUInt8 then some .dot else afterFraction

/-- A number may end here. -/
def InNumber.complete : InNumber → Bool
  | .zero | .digits | .fraction | .power => true
  | .neg | .dot | .exponent | .sign => false

/-- The longest continuation of a number. -/
def scanNumber (state : InNumber) : Bytes → Option (Bytes × Bytes)
  | [] => if state.complete then some ([], []) else none
  | c :: rest =>
    match state.step c with
    | some next => (scanNumber next rest).map fun found => (c :: found.1, found.2)
    | none => if state.complete then some ([], c :: rest) else none

/-! ## Strings -/

/-- `utf8.DecodeRune`: the first character and its width. -/
def decodeRune (s : Bytes) : Char × ℕ :=
  match (s.take 4).toByteArray.utf8DecodeChar? 0 with
  | some c => (c, c.utf8Size)
  | none => ('\ufffd', 1)

/-- `getu4`, past the escape -/
def getu4 : Bytes → Option ℕ
  | a :: b :: c :: d :: _ => do
    return (((← hexValue a) * 16 + (← hexValue b)) * 16 + (← hexValue c)) * 16 + (← hexValue d)
  | _ => none

/-- `utf16.DecodeRune` of two escaped units. -/
def decodePair (high low : ℕ) : Option Char :=
  if 0xD800 ≤ high ∧ high < 0xDC00 ∧ 0xDC00 ≤ low ∧ low < 0xE000 then
    some (Char.ofNat ((high - 0xD800) * 0x400 + (low - 0xDC00) + 0x10000))
  else none

/-- The meaning of a one-letter escape. -/
def unescape (c : UInt8) : Char :=
  if c = 'b'.toUInt8 then '\x08'
  else if c = 'f'.toUInt8 then '\x0c'
  else if c = 'n'.toUInt8 then '\n'
  else if c = 'r'.toUInt8 then '\r'
  else if c = 't'.toUInt8 then '\t'
  else Char.ofNat c.toNat

/-- The character of a `\uXXXX` escape and its width. Half of a surrogate pair is replaced. -/
def readEscape (unit : ℕ) (after : Bytes) : Char × ℕ :=
  if 0xD800 ≤ unit ∧ unit < 0xE000 then
    match after with
    | slash :: u :: more =>
      if slash = backslash ∧ u = 'u'.toUInt8 then
        match (getu4 more).bind (decodePair unit) with
        | some c => (c, 12)
        | none => ('\ufffd', 6)
      else ('\ufffd', 6)
    | _ => ('\ufffd', 6)
  else (Char.ofNat unit, 6)

/-- One round of the loop of `unquoteBytes` over the inside of a scanned string. -/
def readRune (s : Bytes) : Char × ℕ :=
  match s with
  | slash :: c :: rest =>
    if slash = backslash then
      if c = 'u'.toUInt8 then readEscape ((getu4 rest).getD 0xFFFD) (rest.drop 4) else (unescape c, 2)
    else decodeRune s
  | _ => decodeRune s

/-- `unquoteBytes`, past the bytes that the last character still covers. -/
def unquoteFrom : ℕ → Bytes → Text
  | _, [] => []
  | covered + 1, _ :: rest => unquoteFrom covered rest
  | 0, c :: rest => ch (readRune (c :: rest)).1 :: unquoteFrom ((readRune (c :: rest)).2 - 1) rest

def unquote (raw : Bytes) : Text := unquoteFrom 0 raw

/-! ## Values -/

/-- What follows a literal name. -/
def scanName (name : Bytes) (value : Value) (s : Bytes) : Option (Value × Bytes) :=
  if name <+: s then some (value, s.drop name.length) else none

/-- A literal name or a number. -/
def scanScalar : Bytes → Option (Value × Bytes)
  | [] => none
  | c :: rest =>
    if c = 'n'.toUInt8 then scanName (bytes "null") .null (c :: rest)
    else if c = 't'.toUInt8 then scanName (bytes "true") (.bool true) (c :: rest)
    else if c = 'f'.toUInt8 then scanName (bytes "false") (.bool false) (c :: rest)
    else do
      let state ← InNumber.start c
      let (digits, left) ← scanNumber state rest
      return (.number (c :: digits), left)

/-- Nothing up to the closing byte, or else the items. -/
def scanBody (close : UInt8) (s : Bytes) (items : Option (List α × Bytes)) : Option (List α × Bytes) :=
  match expect close s with
  | some left => some ([], left)
  | none => items

mutual
/-- The value at the front, with at most `nest` levels opened, and what follows it. -/
def scanValue : ℕ → ℕ → Bytes → Option (Value × Bytes)
  | 0, _, _ => none
  | fuel + 1, nest, s =>
    match skipSpace s with
    | [] => none
    | c :: rest =>
      if c = '\x7b'.toUInt8 then
        if nest = 0 then none
        else
          (scanBody '\x7d'.toUInt8 rest (scanMembers fuel (nest - 1) rest)).map fun found => (.object found.1, found.2)
      else if c = '['.toUInt8 then
        if nest = 0 then none
        else (scanBody ']'.toUInt8 rest (scanElements fuel (nest - 1) rest)).map fun found => (.array found.1, found.2)
      else if c = quote then (scanString .plain rest).map fun found => (.string (unquote found.1), found.2)
      else scanScalar (c :: rest)

/-- The members of an object that has some, and what follows its closing brace. -/
def scanMembers : ℕ → ℕ → Bytes → Option (Members × Bytes)
  | 0, _, _ => none
  | fuel + 1, nest, s => do
    let (raw, afterKey) ← scanString .plain (← expect quote s)
    let (value, after) ← scanValue fuel nest (← expect ':'.toUInt8 afterKey)
    match expect '\x7d'.toUInt8 after with
    | some left => return ([(unquote raw, value)], left)
    | none =>
      let (more, left) ← scanMembers fuel nest (← expect ','.toUInt8 after)
      return ((unquote raw, value) :: more, left)

/-- The elements of an array that has some, and what follows its closing bracket. -/
def scanElements : ℕ → ℕ → Bytes → Option (List Value × Bytes)
  | 0, _, _ => none
  | fuel + 1, nest, s => do
    let (value, after) ← scanValue fuel nest s
    match expect ']'.toUInt8 after with
    | some left => return ([value], left)
    | none =>
      let (more, left) ← scanElements fuel nest (← expect ','.toUInt8 after)
      return (value :: more, left)
end

inductive DecodeError where
  /-- `io.EOF` -/
  | eof
  /-- Anything else. -/
  | invalid
  deriving DecidableEq

/-- `Decoder.readValue` with the whole input in its buffer: a value and the input left. -/
def readValue (s : Bytes) : Except DecodeError (Value × Bytes) :=
  if skipSpace s = [] then .error .eof
  else
    match scanValue (2 * s.length + 1) maxNestingDepth s with
    | none => .error .invalid
    | some found => .ok found

/-- The value of a whole text, as `Unmarshal` scans it. -/
def parse (s : Bytes) : Option Value :=
  match readValue s with
  | .error _ => none
  | .ok (value, rest) => if skipSpace rest = [] then some value else none

/-! ## Decoding into a structure -/

/-- `foldRune` on the characters that fold to ASCII. No other character folds to one of a
field's name. -/
def foldRune (c : Char) : Char :=
  if c = '\u017f' then 'S' else if c = '\u212a' then 'K' else c.toUpper

/-- `foldName` -/
def foldName (name : Text) : Text :=
  name.map fun
    | .scalar c => ch (foldRune c)
    | point => point

/-- The key of a member finds the field of this name, whatever its case. -/
def finds (field : String) (key : Text) : Bool := foldName key = foldName (text field)

/-- `literalStore` into a string. `null` leaves it as it was. -/
def storeString (old : Text) : Value → Option Text
  | .string s => some s
  | .null => some old
  | _ => none

/-- `literalStore` into a 64-bit integer. -/
def storeInt64 (old : Int) : Value → Option Int
  | .number literal => (Strconv.parseInt literal).toOption.map Int64.toInt
  | .null => some old
  | _ => none

/-- An integer as `Marshal` writes it. -/
def integer (n : Int) : Value := .number (Strconv.formatInt n)

theorem storeInt64_integer (low : -2 ^ 63 ≤ n) (high : n < 2 ^ 63) : storeInt64 old (integer n) = some n := by
  rw [integer, storeInt64, Strconv.parseInt_formatInt low high]
  exact congrArg some (Int64.toInt_ofInt_of_le low high)

/-- `decodeState.object` into a structure, by what one member does to it. -/
def decodeStruct (store : σ → Text × Value → Option σ) (zero : σ) : Value → Option σ
  | .null => some zero
  | .object members => members.foldlM store zero
  | _ => none

end Library.GoJson
