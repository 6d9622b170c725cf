/-! # Byte offsets into characters

Offsets, lengths and widths count the bytes of the UTF-8 encoding, while texts are handled as lists
of characters. The functions here convert between the two: `splitBytes?` cuts at an exact byte
offset and refuses to cut a character, `splitWithin` cuts at the last character that still fits.
Both return the two parts of the list (`splitBytes?_append`, `splitWithin_append`), and the first
part has the length that was asked for (`byteLength_of_splitBytes?`).
-/

namespace LosslessSyntax.Text

/-- Length of the UTF-8 encoding, in bytes. -/
def byteLength : List Char → Nat
  | [] => 0
  | c :: rest => c.utf8Size + byteLength rest

@[simp] theorem byteLength_nil : byteLength [] = 0 := rfl

@[simp] theorem byteLength_cons (c : Char) (rest : List Char) :
    byteLength (c :: rest) = c.utf8Size + byteLength rest := rfl

@[simp] theorem byteLength_append (front back : List Char) :
    byteLength (front ++ back) = byteLength front + byteLength back := by
  induction front with
  | nil => simp
  | cons c rest ih => simp [ih, Nat.add_assoc]

/-- Cuts after exactly `count` bytes; `none` inside a character or past the end. -/
def splitBytes? : Nat → List Char → Option (List Char × List Char)
  | 0, text => some ([], text)
  | _ + 1, [] => none
  | count + 1, c :: rest =>
    if c.utf8Size ≤ count + 1 then
      (splitBytes? (count + 1 - c.utf8Size) rest).map fun parts => (c :: parts.1, parts.2)
    else none

theorem splitBytes?_append {count : Nat} {text front back : List Char}
    (split : splitBytes? count text = some (front, back)) : front ++ back = text := by
  induction text generalizing count front with
  | nil =>
    cases count with
    | zero => simp_all [splitBytes?]
    | succ count => simp [splitBytes?] at split
  | cons c rest ih =>
    cases count with
    | zero => simp_all [splitBytes?]
    | succ count =>
      simp only [splitBytes?] at split
      split at split
      · simp only [Option.map_eq_some_iff, Prod.exists, Prod.mk.injEq] at split
        obtain ⟨tail, _, inner, rfl, rfl⟩ := split
        simp [ih inner]
      · simp at split

theorem byteLength_of_splitBytes? {count : Nat} {text front back : List Char}
    (split : splitBytes? count text = some (front, back)) : byteLength front = count := by
  induction text generalizing count front with
  | nil =>
    cases count with
    | zero => simp_all [splitBytes?]
    | succ count => simp [splitBytes?] at split
  | cons c rest ih =>
    cases count with
    | zero => simp_all [splitBytes?]
    | succ count =>
      simp only [splitBytes?] at split
      split at split
      · simp only [Option.map_eq_some_iff, Prod.exists, Prod.mk.injEq] at split
        obtain ⟨tail, _, inner, rfl, rfl⟩ := split
        have := ih inner
        simp only [byteLength_cons]
        omega
      · simp at split

/-- Cuts after the last character that ends within the first `count` bytes. -/
def splitWithin : Nat → List Char → List Char × List Char
  | _, [] => ([], [])
  | count, c :: rest =>
    if c.utf8Size ≤ count then
      let (front, back) := splitWithin (count - c.utf8Size) rest
      (c :: front, back)
    else ([], c :: rest)

theorem splitWithin_append (count : Nat) (text : List Char) :
    (splitWithin count text).1 ++ (splitWithin count text).2 = text := by
  induction text generalizing count with
  | nil => rfl
  | cons c rest ih =>
    simp only [splitWithin]
    split
    · simp [ih]
    · rfl

/-- Whether a byte offset lies between two characters of a text, or at one of its ends. -/
def isBoundary (text : String) (offset : Nat) : Bool :=
  (splitBytes? offset text.toList).isSome

/-- The part of a text between two byte offsets; `none` if they are out of order or out of the
text, or if one of them splits a character. -/
def slice? (text : String) (start stop : Nat) : Option String := do
  if stop < start then none
  let (_, rest) ← splitBytes? start text.toList
  let (part, _) ← splitBytes? (stop - start) rest
  some (String.ofList part)

end LosslessSyntax.Text
