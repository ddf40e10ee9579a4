import P101Test.Mutation.World
import Mathlib.Data.Nat.Bitwise

/-!
# Copying, removing and editing trees

The file half of the mutation tool (`files.c`): the recursive copy of the project with its ignored
names, the recursive removal of the temporary directory, the rewriting of paths into the copy, and
the replacement of one span of bytes in the copied source file. All of them work on path names in
buffers of `pathSize` characters, so a name that does not fit is cut where `snprintf` cuts it.

The recursions descend by path text. A child's path name is longer than its parent's until it fills
the buffer, so `pathSize` levels are all that can be met before a name is cut. The recursive functions
carry that number of levels and answer false where it runs out; the tool may go on there, on a cut
name without end. The runs that end are told apart by `copyWithin` and `removeWithin`.

## Main definitions

* `ignoredName`, `copyFile`, `copyTree`: the copy.
* `removeTree`: the removal.
* `rewritePath`: the redirection of a path into the copy.
* `applyCandidate`: the edit of one file of the copy.
-/

namespace P101Test.Mutation

open FileSystem Stdio

/-- `COPY_BUFFER_SIZE`. -/
def copyBufferSize : ℕ := 16384

/-- `PERMISSION_BITS`. -/
def permissionBits : ℕ := 0o777

/-- The exact names the copy leaves out. -/
def ignored : List Text :=
  [".git".toList, ".pytest_cache".toList, "__pycache__".toList, "build".toList,
    "compile_commands.json".toList, "coverage".toList, "debug".toList, "profile".toList]

/-- The prefixes of the other names the copy leaves out. -/
def ignoredPrefixes : List Text :=
  ["build-".toList, "coverage-".toList, "debug-".toList, "profile-".toList]

/-- `ignored_name`. -/
def ignoredName (name : Text) : Bool :=
  ignored.contains name || ignoredPrefixes.any fun start => start.isPrefixOf name

/-- The `"%s/%s"` of a directory's path name and an entry's name, cut to the buffer. -/
def childPath (path name : Text) : Text := cut pathSize (path ++ '/' :: name)

variable (host : Host)

/-- The permissions of a file created with the mode of another. -/
def createdMode (mode : ℕ) : ℕ := Nat.ldiff (mode &&& permissionBits) host.umask

/-! ### Copying a file -/

/-- `p101_read` into the copy buffer: at the end of the file nothing, else at least one byte. -/
def read (input : Path) (offset : ℕ) (w : World) : Option Text × World :=
  call host (readAt input offset (min copyBufferSize (max 1 (host.transfer w.calls)))) w

/-- `p101_write`: the number of bytes accepted. -/
def write (output : Path) (data : Text) (w : World) : Option ℕ × World :=
  let accepted := min data.length (host.transfer w.calls)
  match call host (append output (data.take accepted)) w with
  | (none, w) => (none, w)
  | (some _, w) => (some accepted, w)

/-- The inner loop of `copy_file`: write until everything is accepted or a write accepts nothing. -/
def writeAll (output : Path) : ℕ → Text → World → Bool × World
  | _, [], w => (true, w)
  | 0, _ :: _, w => (false, w)
  | rounds + 1, data, w =>
    match write host output data w with
    | (none, w) => (false, w)
    | (some 0, w) => (false, w)
    | (some written, w) => writeAll output rounds (data.drop written) w

/-- The outer loop of `copy_file`. -/
def copyLoop (input output : Path) : ℕ → ℕ → World → Bool × World
  | 0, _, w => (false, w)
  | rounds + 1, offset, w =>
    match read host input offset w with
    | (none, w) => (false, w)
    | (some [], w) => (!w.hasError, w)
    | (some data, w) =>
      if w.hasError then (false, w)
      else
        match writeAll host output data.length data w with
        | (false, w) => (false, w)
        | (true, w) => copyLoop input output rounds (offset + data.length) w

/-- The number of bytes of a regular file. -/
def fileSize (fs : FileSystem) (p : Path) : ℕ :=
  match fs.entry p with
  | some (.regular _ bytes) => bytes.length
  | _ => 0

/-- `copy_file`. -/
def copyFile (source destination : Text) (mode : ℕ) (w : World) : Bool × World :=
  match call host (openRead host.cwd source) w with
  | (none, w) => (false, w)
  | (some input, w) =>
    match call host (openWrite host.cwd destination (createdMode host mode)) w with
    | (none, w) => (false, w)
    -- Every round before the last moves at least one byte.
    | (some output, w) => copyLoop host input output (fileSize w.fs input + 1) 0 w

/-! ### Copying a tree -/

/-- The loop of `p101_mutation_copy_tree` over one directory stream. -/
def copyEntries (copyChild : Text → Text → World → Bool × World) (source destination : Text) :
    List Text → World → Bool × World
  -- The end of the stream and a failing `readdir` both stop the loop with the result still true.
  | [], w => (true, (attempt host w).2)
  | name :: rest, w =>
    match attempt host w with
    | (false, w) => (true, w)
    | (true, w) =>
      if w.hasError then (true, w)
      else if name = ".".toList ∨ name = "..".toList ∨ ignoredName name then
        copyEntries copyChild source destination rest w
      else
        match copyChild (childPath source name) (childPath destination name) w with
        | (false, w) => (false, w)
        | (true, w) => copyEntries copyChild source destination rest w

/-- The branch of `p101_mutation_copy_tree` for a directory. -/
def copyDirectory (copyChild : Text → Text → World → Bool × World) (source destination : Text)
    (mode : ℕ) (w : World) : Bool × World :=
  match call host (mkdir host.cwd destination (createdMode host mode)) w with
  | (made, w) =>
    if made.isNone ∧ w.err ≠ some (.errno .alreadyExists) then (false, w)
    else
      -- An earlier error is cleared here together with `EEXIST`.
      match call host (opendir host.cwd source) (if w.hasError then w.reset else w) with
      | (none, w) => (false, w)
      | (some names, w) =>
        match copyEntries host copyChild source destination names w with
        | (result, w) => (if w.hasError then false else result, w)

/-- The branch of `p101_mutation_copy_tree` for a symbolic link. -/
def copyLink (source destination : Text) (w : World) : Bool × World :=
  match call host (readlink host.cwd source (pathSize - 1)) w with
  | (none, w) => (false, w)
  | (some target, w) =>
    match call host (symlink host.cwd target destination) w with
    | (made, w) => (made.isSome, w)

/-- The levels of recursion after which a path name has been cut. -/
def maxLevels : ℕ := pathSize

/-- `p101_mutation_copy_tree` with a bound on the levels of recursion, and false where it runs out. -/
def copyLevels : ℕ → Text → Text → World → Bool × World
  | 0, _, _, w => (false, w)
  | levels + 1, source, destination, w =>
    match call host (lstat host.cwd source) w with
    | (none, w) => (false, w)
    | (some (.directory mode), w) =>
      copyDirectory host (copyLevels levels) source destination mode w
    | (some (.link _), w) => copyLink host source destination w
    | (some (.regular mode _), w) => copyFile host source destination mode w
    | (some .special, w) => (true, w)

/-- `p101_mutation_copy_tree`. -/
def copyTree (source destination : Text) (w : World) : Bool × World :=
  copyLevels host maxLevels source destination w

/-! ### Removing a tree -/

/-- The loop of `p101_mutation_remove_tree` over one directory stream. -/
def removeEntries (removeChild : Text → World → Bool × World) (path : Text) :
    List Text → Bool → World → Bool × World
  | [], result, w => (result, (attemptOptional host w).2)
  | name :: rest, result, w =>
    match attemptOptional host w with
    | (false, w) => (result, w)
    | (true, w) =>
      if name = ".".toList ∨ name = "..".toList then
        removeEntries removeChild path rest result w
      else
        match removeChild (childPath path name) w with
        | (removed, w) => removeEntries removeChild path rest (result && removed) w

/-- `p101_mutation_remove_tree` with a bound on the levels of recursion, and false where it runs out. -/
def removeLevels : ℕ → Text → World → Bool × World
  | 0, _, w => (false, w)
  | levels + 1, path, w =>
    match callOptional host (lstat host.cwd path) w with
    | (none, w) => (false, w)
    | (some (.directory _), w) =>
      match callOptional host (opendir host.cwd path) w with
      | (none, w) => (false, w)
      | (some names, w) =>
        match removeEntries host (removeLevels levels) path names true w with
        | (result, w) =>
          match callOptional host (rmdir host.cwd path) w with
          | (removed, w) => (result && removed.isSome, w)
    | (some _, w) =>
      match callOptional host (unlink host.cwd path) w with
      | (removed, w) => (removed.isSome, w)

/-- `p101_mutation_remove_tree`. -/
def removeTree (path : Text) (w : World) : Bool × World :=
  removeLevels host maxLevels path w

/-! ### Paths into the copy -/

/-- The text of a canonical location. -/
def canonicalText (p : Path) : Text :=
  if p = [] then "/".toList else pathText p

/-- `realpath` into a buffer of `pathSize` characters. -/
def canonicalize (text : Text) : Call Text := fun fs =>
  match fs.realpath host.cwd text with
  | none => .error .noEntry
  | some p =>
    if (canonicalText p).length < pathSize then .ok (canonicalText p, fs) else .error .invalid

/-- The test of `p101_mutation_rewrite_path`: the project's text, up to a component boundary. -/
def inProject (project value : Text) : Bool :=
  project.isPrefixOf value &&
    ((value.drop project.length).head? == some '/' || (value.drop project.length).isEmpty)

/-- `p101_mutation_rewrite_path`. -/
def rewritePath (project copy value : Text) (w : World) : Text × World :=
  if value.head? = some '/' then
    -- A path that cannot be canonicalized is left unchanged.
    match callOptional host (canonicalize host value) w with
    | (none, w) => (value, w)
    | (some canonical, w) =>
      if inProject project canonical then (copy ++ canonical.drop project.length, w)
      else (value, w)
  else (value, w)

/-! ### Applying a candidate -/

/-- `struct p101_mutation_candidate`, with its kind by name. -/
structure Candidate where
  path : Text
  line : ℕ
  start : ℕ
  stop : ℕ
  original : Text
  replacement : Text
  kind : Text
  deriving DecidableEq, Repr

/-- `struct p101_mutation_arguments`, without the selection of candidates and the timeout, which the
host's processes stand for. -/
structure Arguments where
  project : Text
  compileDatabase : Text
  human : Bool
  json : Bool
  testCommand : List Text
  deriving DecidableEq, Repr

/-- `ftell` at the end of a stream. -/
def tellEnd (input : Path) : Call ℕ := fun fs => .ok (fileSize fs input, fs)

/-- The bytes of an open stream, by `fseek`, `ftell`, `fseek` and one `fread`. -/
def readStream (input : Path) (w : World) : Option Text × World :=
  match attempt host w with
  | (false, w) => (none, w)
  | (true, w) =>
    match call host (tellEnd input) w with
    | (none, w) => (none, w)
    | (some size, w) =>
      match attempt host w with
      | (false, w) => (none, w)
      | (true, w) => call host (readAt input 0 size) w

/-- `p101_fwrite`: a failing write moves only part of its data. -/
def fwrite (output : Path) (data : Text) (w : World) : Bool × World :=
  match host.failure w.calls with
  | none =>
    match call host (append output data) w with
    | (written, w) => (written.isSome, w)
  | some code =>
    match append output (data.take (host.transfer w.calls)) w.fs with
    | .ok (_, fs) => (false, { w.tick.raise (.errno (.host code)) with fs := fs })
    | .error _ => (false, w.tick.raise (.errno (.host code)))

/-- Successive writes, up to the first that fails. -/
def fwriteAll (output : Path) : List Text → World → Bool × World
  | [], w => (true, w)
  | data :: rest, w =>
    match fwrite host output data w with
    | (false, w) => (false, w)
    | (true, w) => fwriteAll output rest w

/-- Whether a candidate's span lies in the contents and holds its original text. -/
def Candidate.fits (candidate : Candidate) (contents : Text) : Bool :=
  candidate.stop ≤ contents.length && candidate.start ≤ candidate.stop &&
    candidate.stop - candidate.start == candidate.original.length &&
    (contents.drop candidate.start).take (candidate.stop - candidate.start) == candidate.original

/-- The three pieces `p101_mutation_apply_candidate` writes. -/
def Candidate.pieces (candidate : Candidate) (contents : Text) : List Text :=
  [contents.take candidate.start, candidate.replacement, contents.drop candidate.stop]

/-- The path of a candidate below the project, without its leading slash. -/
def relativePath (project path : Text) : Text :=
  let relative := path.drop project.length
  if relative.head? = some '/' then relative.tail else relative

/-- The permissions `fopen` asks for when it creates a file. -/
def streamMode : ℕ := 0o666

/-- The error of a candidate that is not under the project. -/
def outsideProject : Fault := .user "Mutation candidate is outside the project.".toList

/-- The error of a candidate whose original text is not where it was found. -/
def sourceChanged : Fault := .user "Mutation candidate source changed.".toList

/-- The part of `p101_mutation_apply_candidate` that reads, checks and writes the target file. -/
def editTarget (candidate : Candidate) (target : Text) (w : World) : Bool × World :=
  match call host (openRead host.cwd target) w with
  | (none, w) => (false, w)
  | (some input, w) =>
    match readStream host input w with
    | (none, w) => (false, w)
    | (some contents, w) =>
      match attempt host w with
      -- Closing the input may record an error; the edit goes on.
      | (_, w) =>
        if candidate.fits contents then
          match call host (openWrite host.cwd target (createdMode host streamMode)) w with
          | (none, w) => (false, w)
          | (some output, w) =>
            match fwriteAll host output (candidate.pieces contents) w with
            | (written, w) =>
              match attempt host w with
              | (_, w) => (written && !w.hasError, w)
        else (false, w.raise sourceChanged)

/-- `p101_mutation_apply_candidate`. -/
def applyCandidate (arguments : Arguments) (candidate : Candidate) (copy : Text) (w : World) :
    Bool × World :=
  match call host (canonicalize host arguments.project) w with
  | (none, w) => (false, w)
  | (some project, w) =>
    if project.isPrefixOf candidate.path then
      editTarget host candidate (childPath copy (relativePath project candidate.path)) w
    else (false, w.raise outsideProject)

end P101Test.Mutation
