import Hcexplorer.Library.Machines

/-!
# The reader of PostgreSQL arrays

`parseArray` reads the text of an array by labelled loops that share an index, a depth
and the dimensions counted so far, and jumps between them. Here each loop is a label of
a machine, and a pass of the loop a step. An index out of range and a division by zero
are panics; `UInt64Array.Scan` takes the elements of one dimension for its numbers.

Byte slices are lists of bytes, none is nil. An error is its kind with the byte and the
offset that its text names.
-/

namespace Hcexplorer.Dbtypes

open Machines

/-- A slice of bytes, which is what the driver hands over and what the parser reads. -/
abbrev Bytes := List UInt8

/-- The character that opens a level of the array. -/
def openBrace : UInt8 := 123
/-- The character that closes a level of the array. -/
def closeBrace : UInt8 := 125
/-- The character around a quoted element. -/
def doubleQuote : UInt8 := 34
/-- The character before an escaped one within a quoted element. -/
def backslash : UInt8 := 92
/-- The character between two elements, which is the delimiter of the arrays that are read here. -/
def comma : UInt8 := 44

/-- The four letters of `NULL`, a bare element for which the parser keeps nil. -/
def nullText : Bytes := [78, 85, 76, 76]

/-- The kinds of errors of `strconv.ParseUint`: a text that is no number, and a number that does
not fit. -/
inductive NumError where
  | invalidSyntax
  | range
deriving DecidableEq, Repr

/-- The errors of the reader, with the character, the offset, the type or the index that their
messages name. -/
inductive ArrayError where
  | expected (wanted : UInt8) (offset : Nat)
  | unexpected (found : UInt8) (offset : Nat)
  | dimensions
  | cannotConvertArray (dims : List Int) (typ : String)
  | cannotConvert (typ : String)
  | element (index : Nat) (err : NumError)
deriving DecidableEq, Repr

/-- The loops of `parseArray`: over opening braces, elements, the characters of a quoted
and of a bare element, what follows an element, and closing braces. -/
inductive Label where
  | opening
  | element
  | quoted (elem : Bytes) (escape : Bool)
  | bare (start : Nat)
  | separator
  | closing
deriving DecidableEq, Repr

/-- The variables of `parseArray`, with the loop that it is in. The elements are nil for
`NULL`. -/
structure ParseState where
  label : Label
  depth : Int
  i : Nat
  dims : List Int
  elems : List (Option Bytes)
deriving DecidableEq, Repr

/-- What `parseArray` returns: an error, or the dimensions with the elements, a null element
being none. -/
abbrev Parsed := Except ArrayError (List Int × List (Option Bytes))

/-- What one pass of a loop makes of the state: the next state, a result, or a panic. -/
abbrev Step := Outcome (Turn ParseState Parsed)

section Model

/-- Go on at a label with the variables as they are now. -/
def goOn (state : ParseState) : Step := .returned (.next state)

/-- Return a result, an error or what has been parsed. -/
def stop (result : Parsed) : Step := .returned (.stop result)

/-- A loop while the index is in the text, that looks at the character there. -/
def whileReading (src : Bytes) (i : Nat) (ended : Step) (pass : UInt8 → Step) : Step :=
  if i < src.length then
    match src[i]? with
    | none => .panicked
    | some c => pass c
  else ended

/-- The assignment of `dims[index]`, which panics where the index is outside of the slice. -/
def assignDim (dims : List Int) (index : Int) (assign : Int → Int) : Outcome (List Int) :=
  if 0 ≤ index ∧ index < dims.length then .returned (dims.modify index.toNat assign) else .panicked

/-- The expression `src[start:i]`, which panics where the bounds are not in order or past the
end. -/
def slice (src : Bytes) (start i : Nat) : Outcome Bytes :=
  if start ≤ i ∧ i ≤ src.length then .returned ((src.take i).drop start) else .panicked

/-- `bytes.HasPrefix(src[i:], del)`: the delimiter is what comes next. -/
def hasPrefix (src : Bytes) (i : Nat) (del : Bytes) : Bool := del.isPrefixOf (src.drop i)

/-- The loop over the opening braces. At its end the dimensions are made. -/
def openingStep (src : Bytes) (state : ParseState) : Step :=
  let made := { state with label := .element, dims := List.replicate state.i 0 }
  whileReading src state.i (goOn made) fun c =>
    if c = openBrace then goOn { state with depth := state.depth + 1, i := state.i + 1 }
    else if c = closeBrace then goOn { state with label := .closing, elems := [] }
    else goOn made

/-- The loop over elements, up to where an element begins. -/
def elementStep (src : Bytes) (state : ParseState) : Step :=
  let leave := { state with label := .separator }
  whileReading src state.i (goOn leave) fun c =>
    if c = openBrace then
      if state.depth = state.dims.length then goOn leave
      else
        (assignDim state.dims (state.depth + 1 - 1) fun _ => 0).bind fun dims =>
          goOn { state with depth := state.depth + 1, dims := dims, i := state.i + 1 }
    else if c = doubleQuote then goOn { state with label := .quoted [] false, i := state.i + 1 }
    else goOn { state with label := .bare state.i }

/-- The characters of a quoted element. With the end of the text the loop over elements
ends too. -/
def quotedStep (src : Bytes) (elem : Bytes) (escape : Bool) (state : ParseState) : Step :=
  whileReading src state.i (goOn { state with label := .separator }) fun c =>
    if escape then goOn { state with label := .quoted (elem ++ [c]) false, i := state.i + 1 }
    else if c = backslash then goOn { state with label := .quoted elem true, i := state.i + 1 }
    else if c = doubleQuote then
      goOn { state with label := .separator, elems := state.elems ++ [some elem], i := state.i + 1 }
    else goOn { state with label := .quoted (elem ++ [c]) false, i := state.i + 1 }

/-- The characters of a bare element, up to the delimiter or a closing brace. An empty element is
an error, and `NULL` is a null. -/
def bareStep (src del : Bytes) (start : Nat) (state : ParseState) : Step :=
  whileReading src state.i (goOn { state with label := .separator }) fun c =>
    if hasPrefix src state.i del ∨ c = closeBrace then
      (slice src start state.i).bind fun elem =>
        if elem = [] then stop (.error (.unexpected c state.i))
        else
          let elem := if elem = nullText then none else some elem
          goOn { state with label := .separator, elems := state.elems ++ [elem] }
    else goOn { state with i := state.i + 1 }

/-- What follows an element: a delimiter, which leads to the next element at the same depth, or a
closing brace. -/
def separatorStep (src del : Bytes) (state : ParseState) : Step :=
  whileReading src state.i (goOn { state with label := .closing }) fun c =>
    if hasPrefix src state.i del ∧ 0 < state.depth then
      (assignDim state.dims (state.depth - 1) (· + 1)).bind fun dims =>
        goOn { state with label := .element, dims := dims, i := state.i + del.length }
    else if c = closeBrace ∧ 0 < state.depth then
      (assignDim state.dims (state.depth - 1) (· + 1)).bind fun dims =>
        goOn { state with dims := dims, depth := state.depth - 1, i := state.i + 1 }
    else stop (.error (.unexpected c state.i))

/-- The loop over the dimensions at the end, with the error so far. -/
def checkDims (count : Int) : Option ArrayError → List Int → Outcome (Option ArrayError)
  | err, [] => .returned err
  | err, d :: dims =>
    if d = 0 then .panicked
    else checkDims count (if count.tmod d ≠ 0 then some .dimensions else err) dims

/-- What comes after the loops: the missing braces are an error, and so are dimensions that do
not fit the elements. -/
def finish (state : ParseState) : Step :=
  if 0 < state.depth then stop (.error (.expected closeBrace state.i))
  else
    (checkDims state.elems.length none state.dims).bind fun err =>
      match err with
      | some err => stop (.error err)
      | none => stop (.ok (state.dims, state.elems))

/-- The loop over the closing braces of an array without elements. -/
def closingStep (src : Bytes) (state : ParseState) : Step :=
  whileReading src state.i (finish state) fun c =>
    if c = closeBrace ∧ 0 < state.depth then
      goOn { state with depth := state.depth - 1, i := state.i + 1 }
    else stop (.error (.unexpected c state.i))

/-- One pass of the loop that the parser is in. -/
def parseStep (src del : Bytes) (state : ParseState) : Step :=
  match state.label with
  | .opening => openingStep src state
  | .element => elementStep src state
  | .quoted elem escape => quotedStep src elem escape state
  | .bare start => bareStep src del start state
  | .separator => separatorStep src del state
  | .closing => closingStep src state

/-- The variables at the start of `parseArray`, before any character is read. -/
def parseStart : ParseState := ⟨.opening, 0, 0, [], []⟩

/-- `parseArray`, for a number of passes of its loops. -/
def parseArray (fuel : Nat) (src del : Bytes) : Outcome Parsed :=
  if src.length < 1 ∨ src[0]? ≠ some openBrace then .returned (.error (.expected openBrace 0))
  else run (parseStep src del) fuel parseStart

/-- `ScanLinearArray`, the parser for an array of one dimension; an array of more dimensions is
an error that names them. -/
def scanLinearArray (fuel : Nat) (src del : Bytes) (typ : String) :
    Outcome (Except ArrayError (List (Option Bytes))) :=
  (parseArray fuel src del).bind fun parsed =>
    match parsed with
    | .error err => .returned (.error err)
    | .ok (dims, elems) =>
      if 1 < dims.length then .returned (.error (.cannotConvertArray dims typ)) else .returned (.ok elems)

/-- The loop of `strconv.ParseUint` in base 10 over the digits that are left. -/
def parseDigits : Nat → Bytes → Except NumError UInt64
  | n, [] => .ok (UInt64.ofNat n)
  | n, c :: rest =>
    if 48 ≤ c ∧ c ≤ 57 then
      let n := 10 * n + (c.toNat - 48)
      if n < 18446744073709551616 then parseDigits n rest else .error .range
    else .error .invalidSyntax

/-- `strconv.ParseUint(s, 10, 64)`: an empty text is no number, and any other is read digit by
digit. -/
def parseUint (s : Bytes) : Except NumError UInt64 :=
  if s = [] then .error .invalidSyntax else parseDigits 0 s

/-- The loop of `scanBytes`, from an index on; the error of an element names its index, and a
null element is parsed as an empty text. -/
def parseElems : Nat → List (Option Bytes) → Except ArrayError (List UInt64)
  | _, [] => .ok []
  | i, v :: elems =>
    match parseUint (v.getD []) with
    | .error err => .error (.element i err)
    | .ok value => (parseElems (i + 1) elems).map fun values => value :: values

/-- `UInt64Array`, a slice of numbers that may be nil; nil is none here and the empty slice is an
empty list. -/
abbrev UInt64Array := Option (List UInt64)

/-- `scanBytes`, with the error and the receiver after the call. -/
def UInt64Array.scanBytes (fuel : Nat) (src : Bytes) (a : UInt64Array) :
    Outcome (Option ArrayError × UInt64Array) :=
  (scanLinearArray fuel src [comma] "UInt64Array").bind fun scanned =>
    match scanned with
    | .error err => .returned (some err, a)
    | .ok elems =>
      if a.isSome ∧ elems.length = 0 then .returned (none, some [])
      else
        match parseElems 0 elems with
        | .error err => .returned (some err, a)
        | .ok b => .returned (none, some b)

/-- What the driver hands to `Scan`: bytes, a string, nil, or a value of another type, of which
only the type's name is used. -/
inductive Source where
  | bytes (src : Bytes)
  | string (src : Bytes)
  | nil
  | other (typ : String)

/-- `Scan`, by the type of the driver's value: a text is parsed, nil makes the slice nil, and
another type is an error. -/
def UInt64Array.scan (fuel : Nat) (src : Source) (a : UInt64Array) :
    Outcome (Option ArrayError × UInt64Array) :=
  match src with
  | .bytes src => a.scanBytes fuel src
  | .string src => a.scanBytes fuel src
  | .nil => .returned (none, none)
  | .other typ => .returned (some (.cannotConvert typ), a)

end Model

end Hcexplorer.Dbtypes
