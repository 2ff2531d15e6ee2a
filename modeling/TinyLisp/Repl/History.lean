import TinyLisp.Host.FileTree

/-!
# Entry history

The entries of earlier sessions are kept in a file.  It begins with the line `#V2`, and
then has one entry a line, in which a backslash is written twice and a line end as `\n`.
A file that begins otherwise has one entry a line as it stands.

An entry that equals the one before it is not kept again, and neither is more than a
hundred entries; the oldest are dropped.
-/

namespace TinyLisp.Repl

/-- The entries kept, the oldest first, and how many were added since the file was read. -/
structure History where
  entries : List String
  fresh : Nat

namespace History

/-- A history without entries. -/
def empty : History := ⟨[], 0⟩

/-- How many entries are kept. -/
def capacity : Nat := 100

/-- Adds an entry, unless it is empty or equals the one before it. -/
def add (history : History) (entry : String) : History :=
  if entry.isEmpty || history.entries.getLast? = some entry then history
  else
    let entries := history.entries ++ [entry]
    ⟨entries.drop (entries.length - capacity), history.fresh + 1⟩

/-! ## The file -/

/-- The first line of the file. -/
def heading : String := "#V2"

/-- Writes an entry on one line. -/
def encode : List Char → List Char
  | [] => []
  | c :: rest =>
    if c = '\\' then '\\' :: '\\' :: encode rest
    else if c = '\n' then '\\' :: 'n' :: encode rest
    else c :: encode rest

/-- Reads an entry from its line, unless a backslash stands before another character. -/
def decode : List Char → Option (List Char)
  | [] => some []
  | '\\' :: '\\' :: rest => (decode rest).map ('\\' :: ·)
  | '\\' :: 'n' :: rest => (decode rest).map ('\n' :: ·)
  | c :: rest => if c = '\\' then none else (decode rest).map (c :: ·)

theorem decode_encode (chars : List Char) : decode (encode chars) = some chars := by
  induction chars with
  | nil => rfl
  | cons c rest ih =>
    by_cases h : c = '\\'
    · simp [encode, decode, h, ih]
    · by_cases hn : c = '\n' <;> simp [encode, decode, h, hn, ih]

/-- The text of the file. -/
def render (history : History) : String :=
  heading ++ "\n"
    ++ String.join (history.entries.map fun entry => String.ofList (encode entry.toList) ++ "\n")

/-- The lines of a file, without their line ends. -/
def splitLines (line : List Char) : List Char → List (List Char)
  | [] => if line.isEmpty then [] else [line.reverse]
  | '\r' :: '\n' :: rest => line.reverse :: splitLines [] rest
  | c :: rest =>
    if c = '\n' then line.reverse :: splitLines [] rest else splitLines (c :: line) rest

/-- Adds the entry of a line that is written with backslashes.  A line that cannot be read so
is taken as it stands. -/
def addEncoded (history : History) (line : List Char) : History :=
  history.add (String.ofList ((decode line).getD line))

/-- The history in a text. -/
def ofLines (history : History) : List (List Char) → History
  | [] => history
  | first :: rest =>
    if first = heading.toList then rest.foldl addEncoded history
    else (first :: rest).foldl (fun history line => history.add (String.ofList line)) history

/-- The part of a file in front of the first line that is no UTF-8, and whether there is such
a line. -/
def textOf (bytes : List UInt8) : List Char × Bool :=
  match String.fromUTF8? ⟨bytes.toArray⟩ with
  | some text => (text.toList, true)
  | none => (validLines [] [] bytes, false)
where
  /-- The text of the leading lines that are UTF-8. -/
  validLines (text : List Char) (line : List UInt8) : List UInt8 → List Char
    | [] => text
    | byte :: rest =>
      if byte = 10 then
        match String.fromUTF8? ⟨(byte :: line).reverse.toArray⟩ with
        | some more => validLines (text ++ more.toList) [] rest
        | none => text
      else validLines text (byte :: line) rest

/-- The history in a file.  If a line is no text, the entries in front of it count as new. -/
def ofFile : Except FileError ByteArray → History × Option FileError
  | .error error => (empty, some error)
  | .ok bytes =>
    let (text, complete) := textOf bytes.toList
    let history := empty.ofLines (splitLines [] text)
    if complete then ({ history with fresh := 0 }, none) else (history, some .notText)

/-- Whether there is something new to write. -/
def isNew (history : History) : Bool :=
  0 < history.fresh && !history.entries.isEmpty

end History

end TinyLisp.Repl
