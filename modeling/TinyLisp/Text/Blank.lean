/-!
# Blanks

White space is the Unicode property `White_Space`.  It separates atoms, and it is
what `trim` takes off both ends of a text.
-/

namespace TinyLisp.Text

/-- The characters of the Unicode property `White_Space`. -/
def isBlank (c : Char) : Bool :=
  let code := c.toNat
  (0x09 ≤ code && code ≤ 0x0D) || code = 0x20 || code = 0x85 || code = 0xA0
    || code = 0x1680 || (0x2000 ≤ code && code ≤ 0x200A) || code = 0x2028 || code = 0x2029
    || code = 0x202F || code = 0x205F || code = 0x3000

/-- Blanks at the end of a list of characters are dropped. -/
def trimEnd (chars : List Char) : List Char :=
  (chars.reverse.dropWhile isBlank).reverse

/-- A text without the blanks at its two ends. -/
def trim (text : String) : String :=
  String.ofList (trimEnd (text.toList.dropWhile isBlank))

/-- The characters at the front of `chars` that fit into `count` bytes of UTF-8. -/
def takeBytes : Nat → List Char → List Char
  | _, [] => []
  | count, c :: rest =>
    if c.utf8Size ≤ count then c :: takeBytes (count - c.utf8Size) rest else []

/-- The number of bytes that UTF-8 takes for `chars`. -/
def byteSize : List Char → Nat
  | [] => 0
  | c :: rest => c.utf8Size + byteSize rest

theorem byteSize_append (first second : List Char) :
    byteSize (first ++ second) = byteSize first + byteSize second := by
  induction first with
  | nil => simp [byteSize]
  | cons c rest ih => simp [byteSize, ih, Nat.add_assoc]

theorem byteSize_reverse (chars : List Char) : byteSize chars.reverse = byteSize chars := by
  induction chars with
  | nil => rfl
  | cons c rest ih => simp [byteSize, byteSize_append, ih, Nat.add_comm]

/-- What fits into a number of bytes does not take more. -/
theorem byteSize_takeBytes_le (count : Nat) (chars : List Char) :
    byteSize (takeBytes count chars) ≤ count := by
  induction chars generalizing count with
  | nil => simp [takeBytes, byteSize]
  | cons c rest ih =>
    simp only [takeBytes]
    split
    · have := ih (count - c.utf8Size)
      simp only [byteSize]
      omega
    · simp [byteSize]

end TinyLisp.Text
