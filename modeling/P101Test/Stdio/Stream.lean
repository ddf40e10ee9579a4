import P101Test.FileSystem.Path

/-!
# Text streams

What a program sees of a text file that it opens, reads line by line and closes: the pieces `fgets`
delivers, and the failures on the way. A stream fixes both, so that a statement over all streams is
a statement over every content and every failure.

## Main definitions

* `chunks`: the pieces `fgets` delivers with a buffer of a given size.
* `Stream`: a content together with the calls that fail.
* `Stream.delivered`, `Stream.breaks`: the pieces delivered, and whether reading then fails.
* `WholeFile`: a file that is read whole.
* `Output`: a file that is written.
* `Fault`: what an error on record says.
-/

namespace P101Test.Stdio

/-- The pieces delivered when `line` is already in the buffer. -/
def chunksFrom (size : ℕ) (line : Text) : Text → List Text
  | [] => if line = [] then [] else [line]
  | c :: rest =>
    if c = '\n' ∨ size ≤ line.length + 2 then (line ++ [c]) :: chunksFrom size [] rest
    else chunksFrom size (line ++ [c]) rest

/-- The pieces `fgets` delivers with a buffer of `size` characters: a piece ends behind a newline,
where the buffer is full, or where the text ends. -/
def chunks (size : ℕ) (text : Text) : List Text := chunksFrom size [] text

example : chunks 4 "ab\nabcd\n".toList = ["ab\n".toList, "abc".toList, "d\n".toList] := by decide

/-- The C string in a buffer: what stands before the first null character. -/
def cString (buffer : Text) : Text := buffer.takeWhile (· ≠ '\x00')

/-- A text file as a program meets it: whether it can be opened, its content, the number of reads
that succeed if one of them fails, and whether closing it succeeds. -/
structure Stream where
  opens : Bool
  content : Text
  breaksAt : Option ℕ
  closes : Bool
  deriving DecidableEq, Repr

namespace Stream

/-- A file without failures. -/
def whole (content : Text) : Stream := ⟨true, content, none, true⟩

/-- A file that cannot be opened. -/
def missing : Stream := ⟨false, [], none, true⟩

variable (size : ℕ) (stream : Stream)

/-- The pieces delivered before the stream ends or fails. -/
def delivered : List Text :=
  match stream.breaksAt with
  | none => chunks size stream.content
  | some reads => (chunks size stream.content).take reads

/-- A read fails, at the latest the one that would meet the end of the file. -/
def breaks : Bool :=
  match stream.breaksAt with
  | none => false
  | some reads => reads ≤ (chunks size stream.content).length

end Stream

/-- The steps of reading a file whole. -/
inductive ReadStep
  | opening | seekingEnd | telling | seekingStart | allocating | reading | closing
  deriving DecidableEq, Repr

/-- A file that is read whole, and the step that fails, if one does. -/
structure WholeFile where
  content : Text
  failsAt : Option ReadStep
  deriving DecidableEq, Repr

/-- A file that is written, and which of opening, printing and closing succeed. -/
structure Output where
  opens : Bool
  prints : Bool
  closes : Bool
  deriving DecidableEq, Repr

/-- What a recorded error says: the failure of a call, or a message of the program's own. -/
inductive Fault
  | call
  | user (message : Text)
  deriving DecidableEq, Repr

end P101Test.Stdio
