import P101Test.Mutation.Execution

/-!
# What an edit changes

Applying a candidate changes the contents of one file, and when it succeeds the new contents are
the old ones with the candidate's span replaced. Rewriting paths and building the compile command
change nothing at all.

## Main definitions

* `Candidate.splice`: contents with the candidate's span replaced.

## Main results

* `canonicalize_eq_ok`: what `realpath` delivers.
* `editTarget_spec`: the edit of a file.
* `rewriteAll_fs`, `buildCompileCommand_fs`: the file system is left alone.
-/

namespace P101Test.Mutation

open FileSystem Stdio

variable {host : Host} {w w' : World}

/-! ### Calls that change nothing -/

theorem canonicalize_eq_ok {text out : Text} {fs fs' : FileSystem}
    (h : canonicalize host text fs = .ok (out, fs')) :
    fs' = fs ∧ ∃ p, fs.realpath host.cwd text = some p ∧ out = canonicalText p ∧
      (canonicalText p).length < pathSize := by
  unfold canonicalize at h
  split at h
  · exact absurd h (by simp)
  · next p hp =>
    split at h
    · next hlen =>
      simp only [Except.ok.injEq, Prod.mk.injEq] at h
      exact ⟨h.2.symm, p, hp, h.1.symm, hlen⟩
    · exact absurd h (by simp)

/-- A call that never changes the file system leaves it alone. -/
theorem call_fs {α : Type} {c : Call α} (hc : ∀ {fs fs' a}, c fs = .ok (a, fs') → fs' = fs)
    (w : World) : (call host c w).2.fs = w.fs := by
  rcases h : call host c w with ⟨_ | a, w₁⟩
  · exact (call_none h).1
  · exact hc (call_some h).1

theorem callOptional_fs (host : Host) {α : Type} {c : Call α} (hc : ∀ {fs fs' a}, c fs = .ok (a, fs') → fs' = fs)
    (w : World) : (callOptional host c w).2.fs = w.fs := by
  rcases h : callOptional host c w with ⟨_ | a, w₁⟩
  · exact (callOptional_none h).1
  · exact hc (callOptional_some h).1

@[grind =] theorem call_canonicalize_fs (text : Text) (w : World) :
    (call host (canonicalize host text) w).2.fs = w.fs :=
  call_fs (fun h => (canonicalize_eq_ok h).1) w

@[grind =] theorem call_sourceCommand_fs (arguments : Arguments) (candidate : Candidate)
    (w : World) : (call host (sourceCommand host arguments candidate) w).2.fs = w.fs := by
  refine call_fs (fun h => ?_) w
  unfold sourceCommand at h
  split at h
  · simp only [Except.ok.injEq, Prod.mk.injEq] at h
    exact h.2.symm
  · exact absurd h (by simp)

@[grind =] theorem rewritePath_fs (host : Host) (project copy value : Text) (w : World) :
    (rewritePath host project copy value w).2.fs = w.fs := by
  have hcall := callOptional_fs host (c := canonicalize host value)
    (fun h => (canonicalize_eq_ok h).1) w
  grind [rewritePath]

@[grind =] theorem rewriteAll_fs (host : Host) (project copy : Text) (values : List Text) (w : World) :
    (rewriteAll host project copy values w).2.fs = w.fs := by
  induction values generalizing w <;> grind [rewriteAll]

@[grind =] theorem compileArguments_fs (project copy : Text) (values : List Text) (w : World) :
    (compileArguments host project copy values w).2.fs = w.fs := by
  fun_induction compileArguments <;> grind

@[grind =] theorem buildCompileCommand_fs (host : Host) (arguments : Arguments) (candidate : Candidate)
    (copy : Text) (w : World) :
    (buildCompileCommand host arguments candidate copy w).2.fs = w.fs := by
  unfold buildCompileCommand
  repeat' split
  all_goals grind

/-! ### Reading and writing a stream -/

/-- Reading a stream changes nothing, and delivers the whole file when it succeeds. -/
theorem readStream_spec {input : Path} {contents : Option Text} {mode : ℕ} {bytes : Text}
    (h : readStream host input w = (contents, w'))
    (hin : w.fs.entry input = some (.regular mode bytes)) :
    w'.fs = w.fs ∧ ∀ out, contents = some out → out = bytes := by
  rcases h₁ : attempt host w with ⟨_ | _, w₁⟩
  all_goals
    have hfs₁ : w₁.fs = w.fs := by simpa [h₁] using attempt_fs host w
  · simp only [readStream, h₁] at h
    obtain ⟨rfl, rfl⟩ := Prod.mk.inj h
    exact ⟨hfs₁, by simp⟩
  rcases h₂ : call host (tellEnd input) w₁ with ⟨_ | size, w₂⟩
  · simp only [readStream, h₁, h₂] at h
    obtain ⟨rfl, rfl⟩ := Prod.mk.inj h
    exact ⟨(call_none h₂).1.trans hfs₁, by simp⟩
  have htell := (call_some h₂).1
  simp only [tellEnd, Except.ok.injEq, Prod.mk.injEq] at htell
  obtain ⟨rfl, hfs₂⟩ := htell
  rcases h₃ : attempt host w₂ with ⟨_ | _, w₃⟩
  all_goals
    have hfs₃ : w₃.fs = w₂.fs := by simpa [h₃] using attempt_fs host w₂
    simp only [readStream, h₁, h₂, h₃] at h
  · obtain ⟨rfl, rfl⟩ := Prod.mk.inj h
    exact ⟨hfs₃.trans (hfs₂.symm.trans hfs₁), by simp⟩
  have hfs : w₃.fs = w.fs := hfs₃.trans (hfs₂.symm.trans hfs₁)
  cases contents with
  | none => exact ⟨(call_none h).1.trans hfs, by simp⟩
  | some out =>
      obtain ⟨hfs₄, mode', bytes', hin', hout⟩ := readAt_eq_ok (call_some h).1
      rw [hfs, hin, Option.some.injEq, Entry.regular.injEq] at hin'
      obtain ⟨-, rfl⟩ := hin'
      refine ⟨hfs₄.trans hfs, fun out' hout' => ?_⟩
      rw [← Option.some.inj hout', hout, hfs₁]
      simp [fileSize, hin]

/-- A stream write appends to its file, all of its data when it succeeds. -/
theorem fwrite_spec {output : Path} {data : Text} {written : Bool} {mode : ℕ} {bytes : Text}
    (h : fwrite host output data w = (written, w'))
    (hout : w.fs.entry output = some (.regular mode bytes)) :
    ∃ bytes', w.fs.UpdatedAt w'.fs output (some (.regular mode bytes')) ∧
      (written = true → bytes' = bytes ++ data) := by
  unfold fwrite at h
  split at h
  · rcases hcall : call host (append output data) w with ⟨_ | u, w₁⟩
    · simp only [hcall] at h
      obtain ⟨rfl, rfl⟩ := Prod.mk.inj h
      exact ⟨bytes, .of_eq (call_none hcall).1 hout, by simp⟩
    · simp only [hcall] at h
      obtain ⟨rfl, rfl⟩ := Prod.mk.inj h
      obtain ⟨mode', bytes', hout', hup⟩ := append_eq_ok (call_some hcall).1
      obtain ⟨rfl, rfl⟩ : mode = mode' ∧ bytes = bytes' := by simpa [hout] using hout'
      exact ⟨_, hup, fun _ => rfl⟩
  · split at h
    · next u fs happend =>
      obtain ⟨rfl, rfl⟩ := Prod.mk.inj h
      obtain ⟨mode', bytes', hout', hup⟩ := append_eq_ok happend
      obtain ⟨rfl, rfl⟩ : mode = mode' ∧ bytes = bytes' := by simpa [hout] using hout'
      exact ⟨_, hup, by simp⟩
    · obtain ⟨rfl, rfl⟩ := Prod.mk.inj h
      exact ⟨bytes, .of_eq rfl hout, by simp⟩

theorem fwriteAll_spec {output : Path} {pieces : List Text} {written : Bool} {mode : ℕ}
    {bytes : Text} (h : fwriteAll host output pieces w = (written, w'))
    (hout : w.fs.entry output = some (.regular mode bytes)) :
    ∃ bytes', w.fs.UpdatedAt w'.fs output (some (.regular mode bytes')) ∧
      (written = true → bytes' = bytes ++ pieces.flatten) := by
  induction pieces generalizing w bytes with
  | nil =>
      obtain ⟨rfl, rfl⟩ := Prod.mk.inj h
      exact ⟨bytes, .of_eq rfl hout, by simp⟩
  | cons data rest ih =>
      rcases hwrite : fwrite host output data w with ⟨_ | _, w₁⟩
      all_goals
        obtain ⟨bytes', hup, hall⟩ := fwrite_spec hwrite hout
        simp only [fwriteAll, hwrite] at h
      · obtain ⟨rfl, rfl⟩ := Prod.mk.inj h
        exact ⟨bytes', hup, by simp⟩
      · obtain ⟨bytes'', hup', hall'⟩ := ih h hup.same
        refine ⟨bytes'', hup.trans hup', fun hresult => ?_⟩
        rw [hall' hresult, hall rfl, List.flatten_cons, List.append_assoc]

/-! ### The edit -/

/-- Contents with the candidate's span replaced. -/
def Candidate.splice (candidate : Candidate) (contents : Text) : Text :=
  contents.take candidate.start ++ candidate.replacement ++ contents.drop candidate.stop

theorem Candidate.flatten_pieces (candidate : Candidate) (contents : Text) :
    (candidate.pieces contents).flatten = candidate.splice contents := by
  simp [Candidate.pieces, Candidate.splice]

/-- **The edit.** Only the contents of the target change; success means that the candidate fits the
old contents and that the new ones are spliced from them. -/
theorem editTarget_spec {candidate : Candidate} {target : Text} {p : Path} {result : Bool}
    {mode : ℕ} {bytes : Text} (h : editTarget host candidate target w = (result, w'))
    (ht : w.fs.At target p) (hlen : target.length < pathMax)
    (hp : w.fs.entry p = some (.regular mode bytes)) :
    ∃ bytes', w.fs.UpdatedAt w'.fs p (some (.regular mode bytes')) ∧
      (result = true → candidate.fits bytes = true ∧ bytes' = candidate.splice bytes) := by
  have hloc := ht.locate_follow hlen (by simp [hp]) host.cwd
  rcases h₁ : call host (openRead host.cwd target) w with ⟨_ | input, w₁⟩
  · simp only [editTarget, h₁] at h
    obtain ⟨rfl, rfl⟩ := Prod.mk.inj h
    exact ⟨bytes, .of_eq (call_none h₁).1 hp, by simp⟩
  obtain ⟨hfs₁, hloc₁, -⟩ := openRead_eq_ok (call_some h₁).1
  obtain rfl : p = input := Option.some.inj (hloc.symm.trans hloc₁)
  rcases h₂ : readStream host p w₁ with ⟨contents, w₂⟩
  obtain ⟨hfs₂, hcontents⟩ := readStream_spec h₂ (hfs₁ ▸ hp)
  cases contents with
  | none =>
      simp only [editTarget, h₁, h₂] at h
      obtain ⟨rfl, rfl⟩ := Prod.mk.inj h
      exact ⟨bytes, .of_eq (hfs₂.trans hfs₁) hp, by simp⟩
  | some contents =>
      obtain rfl : contents = bytes := hcontents contents rfl
      rcases h₃ : attempt host w₂ with ⟨closed, w₃⟩
      have hfs₃ : w₃.fs = w.fs := by
        have := attempt_fs host w₂
        rw [h₃] at this
        exact this.trans (hfs₂.trans hfs₁)
      simp only [editTarget, h₁, h₂, h₃] at h
      split at h
      · next hfits =>
        rw [← hfs₃] at hloc hp ⊢
        rcases h₄ : call host (openWrite host.cwd target (createdMode host streamMode)) w₃ with
          ⟨_ | output, w₄⟩
        · simp only [h₄] at h
          obtain ⟨rfl, rfl⟩ := Prod.mk.inj h
          exact ⟨contents, .of_eq (call_none h₄).1 hp, by simp⟩
        obtain ⟨hloc₄, hcases⟩ := openWrite_eq_ok (call_some h₄).1
        obtain rfl : p = output := Option.some.inj (hloc.symm.trans hloc₄)
        rcases hcases with ⟨hnone, -⟩ | ⟨mode', bytes', hp', hup⟩
        · simp [hp] at hnone
        rw [hp, Option.some.injEq, Entry.regular.injEq] at hp'
        obtain ⟨rfl, -⟩ := hp'
        rcases h₅ : fwriteAll host p (candidate.pieces contents) w₄ with ⟨written, w₅⟩
        obtain ⟨bytes'', hup', hall⟩ := fwriteAll_spec h₅ hup.same
        rcases h₆ : attempt host w₅ with ⟨closed', w₆⟩
        have hfs₆ : w₆.fs = w₅.fs := by simpa [h₆] using attempt_fs host w₅
        simp only [h₄, h₅, h₆] at h
        obtain ⟨rfl, rfl⟩ := Prod.mk.inj h
        refine ⟨bytes'', hfs₆ ▸ hup.trans hup', fun hresult => ⟨hfits, ?_⟩⟩
        rw [Bool.and_eq_true] at hresult
        rw [hall hresult.1, List.nil_append, candidate.flatten_pieces]
      · obtain ⟨rfl, rfl⟩ := Prod.mk.inj h
        exact ⟨contents, .of_eq hfs₃ hp, by simp⟩

end P101Test.Mutation
