import DocStore.Json.Reader

/-!
# Reading the known parts of JSON

Who looks at some fields of an object only does not care what the others hold.  They are
passed over: they have to be JSON, but a number among them may have any size, a string may
hold half of a surrogate pair, and arrays and objects may nest to any depth.
-/

namespace DocStore.Json

namespace Reader

open DocStore.Number

/-! ## Passing over -/

/-- What follows a string, after its opening quote. -/
def passString? : List Char → Option (List Char)
  | [] => none
  | '"' :: rest => some rest
  | '\\' :: 'u' :: a :: b :: c :: d :: rest =>
    if [a, b, c, d].all fun c => (hexDigit? c).isSome then passString? rest else none
  | '\\' :: c :: rest =>
    if ['"', '\\', '/', 'b', 'f', 'n', 'r', 't'].contains c then passString? rest else none
  | c :: rest => if c.toNat < 0x20 || c == '\\' then none else passString? rest

/-- What follows some digits, at least one. -/
def passDigits? (cs : List Char) : Option (List Char) :=
  let (digits, rest) := spanDigits cs
  if digits.isEmpty then none else some rest

/-- What follows an exponent, if there is one. -/
def passExponent? : List Char → Option (List Char)
  | c :: rest =>
    if c == 'e' || c == 'E' then
      match rest with
      | '+' :: rest => passDigits? rest
      | '-' :: rest => passDigits? rest
      | rest => passDigits? rest
    else some (c :: rest)
  | [] => some []

/-- What follows a number, after its sign. -/
def passNumber? (cs : List Char) : Option (List Char) := do
  let (digits, rest) := spanDigits cs
  if digits.isEmpty || (digits.head? == some '0' && 1 < digits.length) then none
  else
    match rest with
    | '.' :: rest => passExponent? (← passDigits? rest)
    | rest => passExponent? rest

mutual

/-- What follows a value.  Every round takes at least one character. -/
def pass? : Nat → List Char → Option (List Char)
  | 0, _ => none
  | fuel + 1, cs =>
    match skip cs with
    | 'n' :: rest => expect? ['u', 'l', 'l'] rest
    | 't' :: rest => expect? ['r', 'u', 'e'] rest
    | 'f' :: rest => expect? ['a', 'l', 's', 'e'] rest
    | '"' :: rest => passString? rest
    | '[' :: rest =>
      match skip rest with
      | ']' :: rest => some rest
      | rest => passItems? fuel rest
    | '{' :: rest =>
      match skip rest with
      | '}' :: rest => some rest
      | rest => passFields? fuel rest
    | '-' :: rest => passNumber? rest
    | rest => passNumber? rest

/-- What follows an array; the text stands at an item. -/
def passItems? : Nat → List Char → Option (List Char)
  | 0, _ => none
  | fuel + 1, cs =>
    match pass? fuel cs with
    | none => none
    | some rest =>
      match skip rest with
      | ',' :: rest => passItems? fuel rest
      | ']' :: rest => some rest
      | _ => none

/-- What follows an object; the text stands at a key. -/
def passFields? : Nat → List Char → Option (List Char)
  | 0, _ => none
  | fuel + 1, cs =>
    match skip cs with
    | '"' :: rest =>
      match (passString? rest).map skip with
      | some (':' :: rest) =>
        match (pass? fuel rest).map skip with
        | some (',' :: rest) => passFields? fuel rest
        | some ('}' :: rest) => some rest
        | _ => none
      | _ => none
    | _ => none

end

/-- A value that is passed over; null stands in its place. -/
def passed? (cs : List Char) : Option (Json × List Char) :=
  (pass? (cs.length + 1) cs).map (.null, ·)

end Reader

/-! ## Outlines -/

/-- What is read of a value. -/
inductive Outline where
  /-- All of it. -/
  | whole
  /-- The fields of some names.  A list stands for an object with its items in the order
  of the fields. -/
  | fields (known : List (List String × Outline))

namespace Reader

/-- The items of an array up to its bracket, each by its own reader, in reverse after those
read before; the text stands at an item. -/
def itemsBy? :
    List (List Char → Option (Json × List Char)) → List Json → List Char →
      Option (List Json × List Char)
  | [], _, _ => none
  | read? :: more, done, cs =>
    match read? cs with
    | none => none
    | some (j, rest) =>
      match skip rest with
      | ',' :: rest => itemsBy? more (j :: done) rest
      | ']' :: rest => some ((j :: done).reverse, rest)
      | _ => none

/-- What an outline wants of a value; arguments as those of `value?`. -/
def outlined? : Nat → Outline → List Char → Option (Json × List Char)
  | 0, _, _ => none
  | depth + 1, .whole, cs => value? (depth + 1) cs
  | depth + 1, .fields known, cs =>
    let field? (key : String) : List Char → Option (Json × List Char) :=
      match known.find? (·.1.contains key) with
      | some (_, outline) => outlined? depth outline
      | none => passed?
    match skip cs with
    | '{' :: rest =>
      match skip rest with
      | '}' :: rest => some (.object [], rest)
      | rest =>
        (fields? field? (rest.length + 1) [] rest).map fun (fields, rest) => (.object fields, rest)
    | '[' :: rest =>
      match skip rest with
      | ']' :: rest => some (.array [], rest)
      | rest =>
        (itemsBy? (known.map fun (_, outline) => outlined? depth outline) [] rest).map
          fun (items, rest) => (.array items, rest)
    | rest => value? (depth + 1) rest

end Reader

/-- What an outline wants of the value that a text denotes. -/
def outline? (outline : Outline) (s : String) : Option Json :=
  match Reader.outlined? Reader.depthLimit outline s.toList with
  | some (j, rest) => if (Reader.skip rest).isEmpty then some j else none
  | none => none

end DocStore.Json
