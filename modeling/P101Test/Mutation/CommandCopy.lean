import P101Test.Mutation.CompileCheck
import P101Test.Mutation.Heap

/-!
# Building the compile check in memory

The command of the compile check is built from copies of the texts of the compile database, in arrays that
are allocated for it, and any of these allocations may fail. Two failures are not handled: that of the array
of `command_observer`, which is walked when the copy is destroyed, and that of the array of
`build_compile_command`, to which the last option is written.

## Main definitions

* `CommandCopy`: a command in memory.
* `commandObserver`, `destroyCommand`, `buildCommandCopy`: the functions on it.
* `executeCommand`: the execution of a candidate from the compile check on.
* `Handled`, `ArraysGranted`: failures are handled, and the arrays that have to be allocated are.

## Main results

* `commandObserver_cases`, `buildFrom_cases`: how copying and building end.
* `executeCommand_of_granting`: without a failure, the execution is the one of a candidate.
* `handled_iff`: failures are handled exactly where the arrays are allocated.
-/

namespace P101Test.Mutation

open FileSystem Stdio Pointers

/-! ### Commands in memory -/

/-- `struct command_copy`. -/
structure CommandCopy where
  directory : Option Text
  arguments : Slots Text
  argumentCount : ℕ
  deriving DecidableEq, Repr

/-- A cleared copy. -/
def CommandCopy.zero : CommandCopy := ⟨none, none, 0⟩

/-- The command a copy stands for: its arguments end at a null pointer. -/
def CommandCopy.command (copy : CommandCopy) : CompileCommand :=
  ⟨copy.directory.getD [], untilNull copy.arguments⟩

variable (host : Host) (denied : ℕ → Bool)

/-- The loop of `command_observer`, and the part of that of `build_compile_command` that writes: texts are
allocated and written to an array one after the other; an error on record ends it. -/
def writeTexts (produce : Text → Heap → Option Text × Heap) :
    List Text → Slots Text → ℕ → Heap → Except Violation (Slots Text × ℕ × Heap)
  | [], array, index, heap => .ok (array, index, heap)
  | value :: rest, array, index, heap =>
    if heap.hasError then .ok (array, index, heap)
    else
      let produced := produce value heap
      match store array index produced.1 with
      | .error violation => .error violation
      | .ok array => writeTexts produce rest array (index + 1) produced.2

/-- `command_observer`: whether no error is on record, and the copy of the command. -/
def commandObserver (command : CompileCommand) (heap : Heap) :
    Except Violation (Bool × CommandCopy × Heap) :=
  let directory := mutationCopyText denied command.directory heap
  let array := calloc denied (command.arguments.length + 2) directory.2
  match writeTexts (mutationCopyText denied) command.arguments array.1 0 array.2 with
  | .error violation => .error violation
  | .ok (slots, _, heap) => .ok (!heap.hasError, ⟨directory.1, slots, command.arguments.length⟩, heap)

/-- `destroy_command`: the pointers that are freed are read from the array. -/
def destroyCommand (command : CommandCopy) : Except Violation Unit :=
  match loadAll command.arguments command.argumentCount with
  | .error violation => .error violation
  | .ok _ => .ok ()

/-- The text a slot points to. -/
def loadText (array : Slots Text) (index : ℕ) : Except Violation Text :=
  match load array index with
  | .error violation => .error violation
  | .ok none => .error .nullPointer
  | .ok (some text) => .ok text

/-- The loop of `build_compile_command`; an error on record ends it. -/
def buildLoop (project copy : Text) (source : CommandCopy) (readIndex : ℕ) (array : Slots Text)
    (writeIndex : ℕ) (heap : Heap) : Except Violation (Slots Text × ℕ × Heap) :=
  if source.argumentCount ≤ readIndex ∨ heap.hasError then .ok (array, writeIndex, heap)
  else
    match loadText source.arguments readIndex with
    | .error violation => .error violation
    | .ok value =>
      if value = "-c".toList then
        buildLoop project copy source (readIndex + 1) array writeIndex heap
      else if compileOptionTakesValue value then
        -- The option's value is skipped with it.
        buildLoop project copy source (readIndex + 2) array writeIndex heap
      else if isCompileOutputOption value then
        buildLoop project copy source (readIndex + 1) array writeIndex heap
      else
        let rewritten := mutationRewritePath host denied project copy value heap
        match store array writeIndex rewritten.1 with
        | .error violation => .error violation
        | .ok array => buildLoop project copy source (readIndex + 1) array (writeIndex + 1) rewritten.2
termination_by source.argumentCount - readIndex

/-- The part of `build_compile_command` behind the observer. -/
def buildFrom (arguments : Arguments) (copy : Text) (source : CommandCopy) (heap : Heap) :
    Except Violation (Bool × CommandCopy × Heap) :=
  match call host (canonicalize host arguments.project) heap.world with
  | (none, w) => .ok (false, .zero, heap.withWorld w)
  | (some project, w) =>
    let array := calloc denied (source.argumentCount + 2) (heap.withWorld w)
    match source.directory with
    | none => .error .nullPointer
    | some directory =>
      let rewritten := mutationRewritePath host denied project copy directory array.2
      match buildLoop host denied project copy source 0 array.1 0 rewritten.2 with
      | .error violation => .error violation
      | .ok (slots, writeIndex, heap) =>
        let option := mutationCopyText denied syntaxOnly heap
        match store slots writeIndex option.1 with
        | .error violation => .error violation
        | .ok slots => .ok (!option.2.hasError, ⟨rewritten.1, slots, writeIndex + 1⟩, option.2)

/-- `build_compile_command`, in memory: whether it succeeded, and the command. -/
def buildCommandCopy (arguments : Arguments) (candidate : Candidate) (copy : Text) (heap : Heap) :
    Except Violation (Bool × CommandCopy × Heap) :=
  match call host (sourceCommand host arguments candidate) heap.world with
  | (none, w) => .ok (false, .zero, heap.withWorld w)
  | (some found, w) =>
    match commandObserver denied found (heap.withWorld w) with
    | .error violation => .error violation
    | .ok (observed, source, heap) =>
      match (if observed then buildFrom host denied arguments copy source heap
        else .ok (false, .zero, heap)) with
      | .error violation => .error violation
      | .ok built =>
        match destroyCommand source with
        | .error violation => .error violation
        | .ok _ => .ok built

/-! ### Execution -/

/-- The part of `p101_mutation_execute` behind the building of the compile check, up to the cleaning up. -/
def runCheck (arguments : Arguments) (candidate : Candidate) (project copy : Text)
    (command : CompileCommand) (w : World) : Bool × Result × World :=
  match runCommand host command.arguments (some command.directory) w with
  | (status, timedOut, w) =>
    if timedOut || status ≠ 0 then (true, ⟨candidate, .inconclusive, status, timedOut⟩, w)
    else executeTest host arguments candidate project copy w

/-- The part of `p101_mutation_execute` behind the edit, where no allocation fails. -/
def checkAndTest (arguments : Arguments) (candidate : Candidate) (project copy : Text) (w : World) :
    Bool × Result × World :=
  match buildCompileCommand host arguments candidate copy w with
  | (none, w) => (false, .initial candidate, w)
  | (some command, w) => runCheck host arguments candidate project copy command w

/-- The part of `p101_mutation_execute` behind the edit, in memory, with the command destroyed at its end. -/
def executeCommand (arguments : Arguments) (candidate : Candidate) (project copy : Text) (heap : Heap) :
    Except Violation (Bool × Result × Heap) :=
  match buildCommandCopy host denied arguments candidate copy heap with
  | .error violation => .error violation
  | .ok (success, command, heap) =>
    let ended :=
      if success then runCheck host arguments candidate project copy command.command heap.world
      else (false, .initial candidate, heap.world)
    match destroyCommand command with
    | .error violation => .error violation
    | .ok _ => .ok (ended.1, ended.2.1, heap.withWorld ended.2.2)

variable {host denied} {arguments : Arguments} {candidate : Candidate} {copy : Text} {heap heap' : Heap}

/-! ### Writing texts -/

/-- A way to allocate texts: it makes one allocation for each, and what it produces where that succeeds. -/
structure Producer (denied : ℕ → Bool) (produce : Text → Heap → Option Text × Heap)
    (make : Text → World → Text × World) : Prop where
  advances : ∀ text heap, Advances denied heap (produce text heap).2
  allocations_eq : ∀ text heap, (produce text heap).2.allocations = heap.allocations + 1
  granted : ∀ text heap, denied heap.allocations = false →
    produce text heap =
      (some (make text heap.world).1, ⟨(make text heap.world).2, heap.allocations + 1⟩)
  err_eq : ∀ text w, (make text w).2.err = w.err

theorem producer_mutationCopyText (denied : ℕ → Bool) :
    Producer denied (mutationCopyText denied) Prod.mk where
  advances := advances_mutationCopyText denied
  allocations_eq := allocations_mutationCopyText denied
  granted text _ := mutationCopyText_of_granted text
  err_eq _ _ := rfl

theorem producer_mutationRewritePath (host : Host) (denied : ℕ → Bool) (project copy : Text) :
    Producer denied (mutationRewritePath host denied project copy) (rewritePath host project copy) where
  advances := advances_mutationRewritePath host denied project copy
  allocations_eq := allocations_mutationRewritePath host denied project copy
  granted text _ := mutationRewritePath_of_granted project copy text
  err_eq := rewritePath_err host project copy

/-- What is made of texts one after the other. -/
def makeAll (make : Text → World → Text × World) : List Text → World → List Text × World
  | [], w => ([], w)
  | value :: rest, w =>
    let made := make value w
    let others := makeAll make rest made.2
    (made.1 :: others.1, others.2)

theorem makeAll_mk (values : List Text) (w : World) : makeAll Prod.mk values w = (values, w) := by
  induction values with
  | nil => rfl
  | cons value rest ih => rw [makeAll, ih]

theorem makeAll_rewritePath (host : Host) (project copy : Text) (values : List Text) (w : World) :
    makeAll (rewritePath host project copy) values w = rewriteAll host project copy values w := by
  induction values generalizing w with
  | nil => rfl
  | cons value rest ih => rw [makeAll, rewriteAll, ih]

theorem length_makeAll (make : Text → World → Text × World) (values : List Text) (w : World) :
    (makeAll make values w).1.length = values.length := by
  induction values generalizing w with
  | nil => rfl
  | cons value rest ih => rw [makeAll, List.length_cons, List.length_cons, ih]

variable {produce : Text → Heap → Option Text × Heap} {make : Text → World → Text × World}

theorem Producer.makeAll_err (h : Producer denied produce make) (values : List Text) (w : World) :
    (makeAll make values w).2.err = w.err := by
  induction values generalizing w with
  | nil => rfl
  | cons value rest ih => rw [makeAll, ih, h.err_eq]

theorem writeTexts_of_hasError (values : List Text) (array : Slots Text) (index : ℕ)
    (h : heap.hasError = true) : writeTexts produce values array index heap = .ok (array, index, heap) := by
  cases values with
  | nil => rfl
  | cons value rest => rw [writeTexts, if_pos h]

/-- Writing to an array with room goes right; it leaves no error on record only if all texts were
allocated. -/
theorem writeTexts_some (hproduce : Producer denied produce make) (values : List Text)
    (slots : List (Option Text)) (index : ℕ) (heap : Heap) (hroom : index + values.length ≤ slots.length) :
    ∃ slots' index' heap', writeTexts produce values (some slots) index heap =
        .ok (some slots', index', heap') ∧
      slots'.length = slots.length ∧ index' ≤ index + values.length ∧ Advances denied heap heap' ∧
      (heap'.hasError = false → heap'.allocations = heap.allocations + values.length) := by
  induction values generalizing index slots heap with
  | nil => exact ⟨slots, index, heap, rfl, rfl, le_rfl, .refl heap, fun _ => rfl⟩
  | cons value rest ih =>
      by_cases herror : heap.hasError = true
      · refine ⟨slots, index, heap, writeTexts_of_hasError _ _ _ herror, rfl, by omega, .refl heap, ?_⟩
        intro hclean
        rw [herror] at hclean
        cases hclean
      · rw [List.length_cons] at hroom ⊢
        obtain ⟨slots', index', heap', hrest, hlength, hindex, hadvances, hall⟩ :=
          ih (slots.set index (produce value heap).1) (index + 1) (produce value heap).2
            (by rw [List.length_set]; omega)
        rw [writeTexts, if_neg herror]
        dsimp only
        rw [store_some _ (by omega)]
        refine ⟨slots', index', heap', hrest, by rw [hlength, List.length_set], by omega,
          (hproduce.advances value heap).trans hadvances, fun hclean => ?_⟩
        rw [hall hclean, hproduce.allocations_eq]
        omega

theorem writeTexts_of_grants (hproduce : Producer denied produce make) (values written : List Text)
    (room : ℕ) (heap : Heap) (hgrants : Grants denied heap.allocations values.length)
    (hclean : heap.hasError = false) :
    writeTexts produce values (filled written (values.length + room)) written.length heap =
      .ok (filled (written ++ (makeAll make values heap.world).1) room, written.length + values.length,
        ⟨(makeAll make values heap.world).2, heap.allocations + values.length⟩) := by
  induction values generalizing written heap with
  | nil => rw [writeTexts, makeAll, List.append_nil, List.length_nil, Nat.zero_add]; rfl
  | cons value rest ih =>
      rw [List.length_cons] at hgrants ⊢
      rw [writeTexts, if_neg (by simp [hclean]), hproduce.granted value heap hgrants.first]
      dsimp only
      rw [show rest.length + 1 + room = rest.length + room + 1 by omega, store_filled]
      dsimp only
      have hmade : (Heap.mk (make value heap.world).2 (heap.allocations + 1)).hasError = false := by
        rw [Heap.hasError, World.hasError, hproduce.err_eq]
        exact hclean
      have hrest := ih (written ++ [(make value heap.world).1])
        ⟨(make value heap.world).2, heap.allocations + 1⟩ hgrants.rest hmade
      rw [List.length_append, List.length_singleton] at hrest
      rw [hrest, makeAll, List.append_assoc, Nat.add_assoc, Nat.add_assoc, Nat.add_comm 1]
      rfl

theorem commandObserver_of_grants (command : CompileCommand) (hclean : heap.hasError = false)
    (hgrants : Grants denied heap.allocations (command.arguments.length + 2)) :
    commandObserver denied command heap =
      .ok (true, ⟨some command.directory, filled command.arguments 2, command.arguments.length⟩,
        ⟨heap.world, heap.allocations + (command.arguments.length + 2)⟩) := by
  unfold commandObserver
  rw [mutationCopyText_of_granted _ hgrants.first]
  dsimp only
  rw [calloc_of_granted _ hgrants.rest.first]
  dsimp only
  have hcopied := writeTexts_of_grants (producer_mutationCopyText denied) command.arguments [] 2
    ⟨heap.world, heap.allocations + 1 + 1⟩ hgrants.rest.rest hclean
  rw [List.length_nil, makeAll_mk] at hcopied
  rw [hcopied]
  dsimp only
  have hend : (Heap.mk heap.world (heap.allocations + 1 + 1 + command.arguments.length)).hasError = false :=
    hclean
  rw [hend, List.nil_append, show heap.allocations + 1 + 1 + command.arguments.length =
    heap.allocations + (command.arguments.length + 2) by omega]
  rfl

/-- How the observer ends: its array or one of its copies is not allocated, or the command is copied. -/
theorem commandObserver_cases (denied : ℕ → Bool) (command : CompileCommand) (hclean : heap.hasError = false) :
    (denied (heap.allocations + 1) = true ∧ ∃ directory heap',
        commandObserver denied command heap =
          .ok (false, ⟨directory, none, command.arguments.length⟩, heap') ∧
        heap'.hasError = true ∧ Advances denied heap heap') ∨
      (denied (heap.allocations + 1) = false ∧ ∃ directory slots heap',
        commandObserver denied command heap =
          .ok (false, ⟨directory, some slots, command.arguments.length⟩, heap') ∧
        command.arguments.length ≤ slots.length ∧ heap'.hasError = true ∧ Advances denied heap heap' ∧
        ¬Grants denied heap.allocations (command.arguments.length + 2)) ∨
      (Grants denied heap.allocations (command.arguments.length + 2) ∧
        commandObserver denied command heap =
          .ok (true, ⟨some command.directory, filled command.arguments 2, command.arguments.length⟩,
            ⟨heap.world, heap.allocations + (command.arguments.length + 2)⟩)) := by
  have hdirectory := advances_mutationCopyText denied command.directory heap
  have hnext := allocations_mutationCopyText denied command.directory heap
  by_cases hgrants : Grants denied heap.allocations (command.arguments.length + 2)
  · exact .inr (.inr ⟨hgrants, commandObserver_of_grants command hclean hgrants⟩)
  · unfold commandObserver
    dsimp only
    have harray := advances_calloc denied (command.arguments.length + 2)
      (mutationCopyText denied command.directory heap).2
    cases hdenied : denied (heap.allocations + 1) with
    | true =>
        obtain ⟨hnull, herror⟩ := calloc_of_denied (command.arguments.length + 2) (hnext ▸ hdenied)
        rw [hnull, writeTexts_of_hasError _ _ _ herror]
        exact .inl ⟨rfl, (mutationCopyText denied command.directory heap).1, _, by simp [herror], herror,
          hdirectory.trans harray⟩
    | false =>
        rw [calloc_of_granted _ (hnext ▸ hdenied)] at harray ⊢
        obtain ⟨slots, index, heap', hcopied, hlength, -, hadvances, hall⟩ := writeTexts_some
          (producer_mutationCopyText denied) command.arguments
          (List.replicate (command.arguments.length + 2) none) 0
          ⟨(mutationCopyText denied command.directory heap).2.world,
            (mutationCopyText denied command.directory heap).2.allocations + 1⟩
          (by rw [List.length_replicate]; omega)
        rw [List.length_replicate] at hlength
        have herror : heap'.hasError = true := by
          by_contra hclean'
          rw [Bool.not_eq_true] at hclean'
          refine hgrants (((hdirectory.trans harray).trans hadvances).grants hclean' ?_)
          rw [hall hclean', hnext]
          dsimp only
          omega
        refine .inr (.inl ⟨rfl, (mutationCopyText denied command.directory heap).1, slots, heap', ?_, by omega,
          herror, (hdirectory.trans harray).trans hadvances, hgrants⟩)
        rw [show filled [] (command.arguments.length + 2) =
          some (List.replicate (command.arguments.length + 2) (none : Option Text)) from rfl, hcopied]
        simp [herror]

/-! ### Building -/

theorem loadText_filled {values : List Text} {room index : ℕ} {value : Text}
    (h : values[index]? = some value) : loadText (filled values room) index = .ok value := by
  rw [loadText, load_filled h]

section Loop

variable (host : Host) (denied : ℕ → Bool) (project copy : Text) (directory : Option Text)
  (values : List Text) (room : ℕ) {readIndex : ℕ} {value : Text} {left rest : List Text}

theorem load_of_drop (hleft : values.drop readIndex = value :: rest) (hclean : ¬heap.hasError = true) :
    ¬(values.length ≤ readIndex ∨ heap.hasError = true) ∧
      loadText (filled values room) readIndex = .ok value := by
  have hvalue : values[readIndex]? = some value := by
    rw [← List.head?_drop, hleft]
    rfl
  have hlt := (List.getElem?_eq_some_iff.mp hvalue).1
  exact ⟨not_or.mpr ⟨Nat.not_le.mpr hlt, hclean⟩, loadText_filled hvalue⟩

theorem drop_add_of_append (skipped : List Text) (hleft : values.drop readIndex = skipped ++ rest) :
    values.drop (readIndex + skipped.length) = rest := by
  rw [← List.drop_drop, hleft, List.drop_left]

/-- What the loop does with the arguments that are left: it writes those that are kept. -/
theorem buildLoop_eq (left : List Text) (readIndex : ℕ) (array : Slots Text) (writeIndex : ℕ) (heap : Heap)
    (hleft : values.drop readIndex = left) :
    buildLoop host denied project copy ⟨directory, filled values room, values.length⟩ readIndex array
        writeIndex heap =
      writeTexts (mutationRewritePath host denied project copy) (keptArguments left) array writeIndex heap := by
  fun_induction keptArguments left generalizing readIndex array writeIndex heap with
  | case1 => rw [buildLoop, if_pos (.inl (List.drop_eq_nil_iff.mp hleft)), writeTexts]
  | case2 rest ih =>
      by_cases herror : heap.hasError = true
      · rw [buildLoop, if_pos (.inr herror), writeTexts_of_hasError _ _ _ herror]
      · obtain ⟨hgo, hload⟩ := load_of_drop values room hleft herror
        rw [buildLoop, if_neg hgo, hload]
        dsimp only
        rw [if_pos rfl]
        exact ih _ _ _ _ (drop_add_of_append values ["-c".toList] hleft)
  | case3 value hc htakes =>
      by_cases herror : heap.hasError = true
      · rw [buildLoop, if_pos (.inr herror), writeTexts_of_hasError _ _ _ herror]
      · obtain ⟨hgo, hload⟩ := load_of_drop values room hleft herror
        have hend : values.length ≤ readIndex + 2 := by
          have := congrArg List.length hleft
          simp at this
          omega
        rw [buildLoop, if_neg hgo, hload]
        dsimp only
        rw [if_neg hc, if_pos htakes, buildLoop, if_pos (.inl hend), writeTexts]
  | case4 value hc htakes skipped rest ih =>
      by_cases herror : heap.hasError = true
      · rw [buildLoop, if_pos (.inr herror), writeTexts_of_hasError _ _ _ herror]
      · obtain ⟨hgo, hload⟩ := load_of_drop values room hleft herror
        rw [buildLoop, if_neg hgo, hload]
        dsimp only
        rw [if_neg hc, if_pos htakes]
        exact ih _ _ _ _ (drop_add_of_append values [value, skipped] hleft)
  | case5 value rest hc htakes houtput ih =>
      by_cases herror : heap.hasError = true
      · rw [buildLoop, if_pos (.inr herror), writeTexts_of_hasError _ _ _ herror]
      · obtain ⟨hgo, hload⟩ := load_of_drop values room hleft herror
        rw [buildLoop, if_neg hgo, hload]
        dsimp only
        rw [if_neg hc, if_neg htakes, if_pos houtput]
        exact ih _ _ _ _ (drop_add_of_append values [value] hleft)
  | case6 value rest hc htakes houtput ih =>
      by_cases herror : heap.hasError = true
      · rw [buildLoop, if_pos (.inr herror), writeTexts_of_hasError _ _ _ herror]
      · obtain ⟨hgo, hload⟩ := load_of_drop values room hleft herror
        rw [buildLoop, if_neg hgo, hload]
        dsimp only
        rw [if_neg hc, if_neg htakes, if_neg houtput, writeTexts, if_neg herror]
        dsimp only
        rcases store array writeIndex (mutationRewritePath host denied project copy value heap).1 with
          violation | array'
        · rfl
        · exact ih _ _ _ _ (drop_add_of_append values [value] hleft)

end Loop

theorem length_keptArguments_le (values : List Text) : (keptArguments values).length ≤ values.length := by
  fun_induction keptArguments values <;> simp only [List.length_cons, List.length_nil] at * <;> omega

theorem destroyCommand_some {directory : Option Text} {slots : List (Option Text)} {count : ℕ}
    (h : count ≤ slots.length) : destroyCommand ⟨directory, some slots, count⟩ = .ok () := by
  rw [destroyCommand, loadAll_some h]

theorem destroyCommand_none (directory : Option Text) {count : ℕ} (h : 0 < count) :
    destroyCommand ⟨directory, none, count⟩ = .error .nullPointer := by
  rw [destroyCommand, loadAll_null h]

theorem advances_call {α : Type} {c : Call α} {a : Option α} {w : World}
    (h : call host c heap.world = (a, w)) : Advances denied heap (heap.withWorld w) := by
  refine .withWorld ?_ fun herror => hasError_call h herror
  have := call_launches host c heap.world
  rwa [h] at this

theorem buildFrom_of_denied {directory project : Text} {values : List Text} {room count : ℕ} {w : World}
    (hproject : call host (canonicalize host arguments.project) heap.world = (some project, w))
    (hdenied : denied heap.allocations = true) :
    buildFrom host denied arguments copy ⟨some directory, filled values room, count⟩ heap =
      .error .nullPointer := by
  obtain ⟨hnull, herror⟩ := calloc_of_denied (count + 2) (show denied (heap.withWorld w).allocations = true
    from hdenied)
  have hrewritten := (advances_mutationRewritePath host denied project copy directory
    (calloc denied (count + 2) (heap.withWorld w)).2).hasError herror
  rw [buildFrom, hproject]
  dsimp only
  rw [hnull, buildLoop, if_pos (.inr hrewritten)]
  rfl

theorem buildFrom_of_granted (copy directory : Text) (values : List Text) (heap : Heap) {project : Text}
    {w : World}
    (hproject : call host (canonicalize host arguments.project) heap.world = (some project, w))
    (hgranted : denied heap.allocations = false) :
    ∃ command heap', buildFrom host denied arguments copy
        ⟨some directory, filled values 2, values.length⟩ heap = .ok (!heap'.hasError, command, heap') ∧
      destroyCommand command = .ok () ∧ Advances denied heap heap' := by
  have hcall : Advances denied heap (heap.withWorld w) := advances_call hproject
  have harray := advances_calloc denied (values.length + 2) (heap.withWorld w)
  rw [calloc_of_granted _ (show denied (heap.withWorld w).allocations = false from hgranted)] at harray
  have hdirectory := advances_mutationRewritePath host denied project copy directory
    ⟨(heap.withWorld w).world, (heap.withWorld w).allocations + 1⟩
  obtain ⟨slots, index, heap₁, hwritten, hlength, hindex, hwrites, -⟩ := writeTexts_some
    (producer_mutationRewritePath host denied project copy) (keptArguments values)
    (List.replicate (values.length + 2) none) 0
    (mutationRewritePath host denied project copy directory
      ⟨(heap.withWorld w).world, (heap.withWorld w).allocations + 1⟩).2
    (by have := length_keptArguments_le values; rw [List.length_replicate]; omega)
  have hkept := length_keptArguments_le values
  rw [List.length_replicate] at hlength
  have hoption := advances_mutationCopyText denied syntaxOnly heap₁
  rw [buildFrom, hproject]
  dsimp only
  rw [calloc_of_granted _ (show denied (heap.withWorld w).allocations = false from hgranted),
    buildLoop_eq host denied project copy (some directory) values 2 values 0 _ _ _ rfl,
    show filled [] (values.length + 2) = some (List.replicate (values.length + 2) (none : Option Text)) from rfl,
    hwritten]
  dsimp only
  rw [store_some _ (by omega)]
  exact ⟨_, _, rfl, destroyCommand_some (by rw [List.length_set]; omega),
    (((hcall.trans harray).trans hdirectory).trans hwrites).trans hoption⟩

/-- The command that building leaves where all allocations succeed: the arguments that are kept, rewritten,
and the option, with null pointers behind them. -/
theorem buildFrom_of_grants (copy directory : Text) (values : List Text) (heap : Heap) {project : Text}
    {w : World} (hclean : heap.hasError = false)
    (hproject : call host (canonicalize host arguments.project) heap.world = (some project, w))
    (hgrants : Grants denied heap.allocations ((keptArguments values).length + 3)) :
    buildFrom host denied arguments copy ⟨some directory, filled values 2, values.length⟩ heap =
      .ok (true,
        ⟨some (rewritePath host project copy directory w).1,
          filled ((rewriteAll host project copy (keptArguments values)
            (rewritePath host project copy directory w).2).1 ++ [syntaxOnly])
            (values.length + 1 - (keptArguments values).length),
          (keptArguments values).length + 1⟩,
        ⟨(rewriteAll host project copy (keptArguments values)
            (rewritePath host project copy directory w).2).2,
          heap.allocations + ((keptArguments values).length + 3)⟩) := by
  have hkept := length_keptArguments_le values
  have hproducer := producer_mutationRewritePath host denied project copy
  have hw : w.hasError = false := by
    rw [World.hasError, (call_some hproject).2.1]
    exact hclean
  have hrewritten : (Heap.mk (rewritePath host project copy directory w).2
      (heap.allocations + 1 + 1)).hasError = false := by
    rw [Heap.hasError, World.hasError, rewritePath_err]
    exact hw
  have hwritten := writeTexts_of_grants hproducer (keptArguments values) []
    (values.length + 2 - (keptArguments values).length)
    ⟨(rewritePath host project copy directory w).2, heap.allocations + 1 + 1⟩
    (hgrants.rest.rest.of_le (by omega)) hrewritten
  have hend : (Heap.mk (rewriteAll host project copy (keptArguments values)
      (rewritePath host project copy directory w).2).2
      (heap.allocations + 1 + 1 + (keptArguments values).length + 1)).hasError = false := by
    rw [← makeAll_rewritePath, Heap.hasError, World.hasError, hproducer.makeAll_err]
    exact hrewritten
  have hlast : denied (heap.allocations + 1 + 1 + (keptArguments values).length) = false :=
    hgrants _ (by omega) (by omega)
  rw [List.length_nil, makeAll_rewritePath, List.nil_append, Nat.zero_add,
    show (keptArguments values).length + (values.length + 2 - (keptArguments values).length) =
      values.length + 2 by omega] at hwritten
  have hstored := store_filled (rewriteAll host project copy (keptArguments values)
    (rewritePath host project copy directory w).2).1 (values.length + 1 - (keptArguments values).length)
    syntaxOnly
  rw [← makeAll_rewritePath, length_makeAll, makeAll_rewritePath,
    show values.length + 1 - (keptArguments values).length + 1 =
      values.length + 2 - (keptArguments values).length by omega] at hstored
  rw [buildFrom, hproject]
  dsimp only
  rw [calloc_of_granted _ (show denied (heap.withWorld w).allocations = false from hgrants.first)]
  dsimp only [Heap.withWorld]
  rw [mutationRewritePath_of_granted _ _ _ hgrants.rest.first]
  dsimp only
  rw [buildLoop_eq host denied project copy (some directory) values 2 values 0 _ _ _ rfl, hwritten]
  dsimp only
  rw [mutationCopyText_of_granted _ hlast]
  dsimp only
  rw [hstored]
  dsimp only
  rw [hend, show heap.allocations + 1 + 1 + (keptArguments values).length + 1 =
    heap.allocations + ((keptArguments values).length + 3) by omega]
  rfl

/-! ### Handling failures -/

variable (host denied arguments candidate copy heap) (project : Text)

/-- The failures of allocations are handled: no array is accessed that is not there, and if an allocation
fails, the execution fails with an error on record and without a launch. -/
def Handled : Prop :=
  ∃ completed result heap',
    executeCommand host denied arguments candidate project copy heap = .ok (completed, result, heap') ∧
    ((∃ k, heap.allocations ≤ k ∧ k < heap'.allocations ∧ denied k = true) →
      completed = false ∧ heap'.hasError = true ∧ heap'.world.launches = heap.world.launches)

/-- The arrays are allocated: that of the observer, unless the command has no arguments; and, if the
observer succeeds and the project can be canonicalized, that of the compile check. -/
def ArraysGranted : Prop :=
  ∀ found w, call host (sourceCommand host arguments candidate) heap.world = (some found, w) →
    (found.arguments ≠ [] → denied (heap.allocations + 1) = false) ∧
    (Grants denied heap.allocations (found.arguments.length + 2) →
      (call host (canonicalize host arguments.project) w).1 ≠ none →
      denied (heap.allocations + (found.arguments.length + 2)) = false)

variable {host denied arguments candidate copy heap project} {found : CompileCommand} {w : World}
  {command : CommandCopy}

theorem executeCommand_of_failed
    (hbuilt : buildCommandCopy host denied arguments candidate copy heap = .ok (false, command, heap'))
    (hdestroy : destroyCommand command = .ok ()) :
    executeCommand host denied arguments candidate project copy heap =
      .ok (false, .initial candidate, heap') := by
  rw [executeCommand, hbuilt]
  dsimp only
  rw [hdestroy]
  rfl

theorem not_handled_of_error {violation : Violation}
    (hbuilt : buildCommandCopy host denied arguments candidate copy heap = .error violation) :
    ¬Handled host denied arguments candidate copy heap project := by
  rintro ⟨completed, result, heap', hended, -⟩
  rw [executeCommand, hbuilt] at hended
  cases hended

/-- An execution whose command is not built is handled if an error is on record or nothing was allocated. -/
theorem handled_of_failed
    (hbuilt : buildCommandCopy host denied arguments candidate copy heap = .ok (false, command, heap'))
    (hdestroy : destroyCommand command = .ok ())
    (hadvances : Advances denied heap heap') : Handled host denied arguments candidate copy heap project := by
  refine ⟨false, .initial candidate, heap', executeCommand_of_failed hbuilt hdestroy, ?_⟩
  rintro ⟨k, hle, hlt, hdenied⟩
  exact ⟨rfl, hadvances.recorded k hle hlt hdenied, hadvances.launches_eq⟩

theorem handled_of_built (hclean : heap'.hasError = false)
    (hbuilt : buildCommandCopy host denied arguments candidate copy heap = .ok (true, command, heap'))
    (hdestroy : destroyCommand command = .ok ())
    (hadvances : Advances denied heap heap') : Handled host denied arguments candidate copy heap project := by
  rw [Handled, executeCommand, hbuilt]
  dsimp only
  rw [hdestroy]
  refine ⟨_, _, _, rfl, ?_⟩
  rintro ⟨k, hle, hlt, hdenied⟩
  rw [hadvances.recorded k hle hlt hdenied] at hclean
  cases hclean

theorem hasError_of_call {α : Type} {c : Call α} {a : α} (hclean : heap.hasError = false)
    (h : call host c heap.world = (some a, w)) : (heap.withWorld w).hasError = false := by
  rw [Heap.hasError, Heap.withWorld, World.hasError, (call_some h).2.1]
  exact hclean

theorem buildCommandCopy_of_refused {source : CommandCopy}
    (hfound : call host (sourceCommand host arguments candidate) heap.world = (some found, w))
    (hobserved : commandObserver denied found (heap.withWorld w) = .ok (false, source, heap')) :
    buildCommandCopy host denied arguments candidate copy heap =
      (destroyCommand source).map fun _ => (false, .zero, heap') := by
  rw [buildCommandCopy, hfound]
  dsimp only
  rw [hobserved]
  dsimp only
  rw [if_neg Bool.false_ne_true]
  rcases destroyCommand source with _ | _ <;> rfl

theorem buildCommandCopy_of_observed (copy : Text) {heap₁ : Heap}
    (hfound : call host (sourceCommand host arguments candidate) heap.world = (some found, w))
    (hobserved : commandObserver denied found (heap.withWorld w) =
      .ok (true, ⟨some found.directory, filled found.arguments 2, found.arguments.length⟩, heap₁)) :
    buildCommandCopy host denied arguments candidate copy heap =
      buildFrom host denied arguments copy
        ⟨some found.directory, filled found.arguments 2, found.arguments.length⟩ heap₁ := by
  have hdestroy : destroyCommand ⟨some found.directory, filled found.arguments 2, found.arguments.length⟩ =
      .ok () := destroyCommand_some (by simp)
  rw [buildCommandCopy, hfound]
  dsimp only
  rw [hobserved]
  dsimp only
  rw [if_pos rfl, hdestroy]
  rcases buildFrom host denied arguments copy _ heap₁ with _ | _ <;> rfl

theorem arraysGranted_of_handled (hclean : heap.hasError = false)
    (hhandled : Handled host denied arguments candidate copy heap project) :
    ArraysGranted host denied arguments candidate heap := by
  intro found w hfound
  have hclean₁ := hasError_of_call hclean hfound
  refine ⟨fun hne => ?_, fun hgrants hproject => ?_⟩ <;> by_contra hdenied <;>
    rw [Bool.not_eq_false] at hdenied
  · rcases commandObserver_cases denied found hclean₁ with
      ⟨-, directory, heap', hobserved, -⟩ | ⟨hgranted, -⟩ | ⟨hgrants, -⟩
    · -- the copy of the arguments is walked, though it is not there
      have hbuilt : buildCommandCopy host denied arguments candidate copy heap = .error .nullPointer := by
        rw [buildCommandCopy_of_refused hfound hobserved,
          destroyCommand_none _ (List.length_pos_iff.mpr hne)]
        rfl
      exact not_handled_of_error hbuilt hhandled
    · rw [show denied (heap.allocations + 1) = false from hgranted] at hdenied
      cases hdenied
    · rw [show denied (heap.allocations + 1) = false from hgrants.rest.first] at hdenied
      cases hdenied
  · rcases commandObserver_cases denied found hclean₁ with
      ⟨hdenied', -⟩ | ⟨-, _, _, _, -, -, -, -, hnot⟩ | ⟨-, hobserved⟩
    · exact absurd (hdenied'.symm.trans hgrants.rest.first) (by decide)
    · exact hnot hgrants
    · rcases hcall : call host (canonicalize host arguments.project) w with ⟨_ | project', w'⟩
      · rw [hcall] at hproject
        exact hproject rfl
      · -- the last option is written to the array of the check, though it is not there
        have hbuilt : buildCommandCopy host denied arguments candidate copy heap = .error .nullPointer :=
          (buildCommandCopy_of_observed copy hfound hobserved).trans (buildFrom_of_denied hcall hdenied)
        exact not_handled_of_error hbuilt hhandled

theorem handled_of_arraysGranted (hclean : heap.hasError = false)
    (hgranted : ArraysGranted host denied arguments candidate heap) :
    Handled host denied arguments candidate copy heap project := by
  rcases hfound : call host (sourceCommand host arguments candidate) heap.world with ⟨_ | found, w⟩
  · have hbuilt : buildCommandCopy host denied arguments candidate copy heap =
        .ok (false, .zero, heap.withWorld w) := by
      rw [buildCommandCopy, hfound]
    exact handled_of_failed hbuilt rfl (advances_call hfound)
  · have hclean₁ := hasError_of_call hclean hfound
    have hcall : Advances denied heap (heap.withWorld w) := advances_call hfound
    obtain ⟨hobserver, hbuild⟩ := hgranted found w hfound
    rcases commandObserver_cases denied found hclean₁ with
      ⟨hdenied, directory, heap', hobserved, herror, hadvances⟩ |
      ⟨-, directory, slots, heap', hobserved, hslots, herror, hadvances, -⟩ | ⟨hgrants, hobserved⟩
    · have hempty : found.arguments = [] := by
        by_contra hne
        rw [show denied (heap.allocations + 1) = true from hdenied] at hobserver
        cases hobserver hne
      have hbuilt : buildCommandCopy host denied arguments candidate copy heap =
          .ok (false, .zero, heap') := by
        rw [buildCommandCopy_of_refused hfound hobserved, hempty]
        rfl
      exact handled_of_failed hbuilt rfl (hcall.trans hadvances)
    · have hbuilt : buildCommandCopy host denied arguments candidate copy heap =
          .ok (false, .zero, heap') := by
        rw [buildCommandCopy_of_refused hfound hobserved, destroyCommand_some hslots]
        rfl
      exact handled_of_failed hbuilt rfl (hcall.trans hadvances)
    · have hbuilt := buildCommandCopy_of_observed copy hfound hobserved
      have hobserving := hcall.trans hgrants.advances
      rcases hproject : call host (canonicalize host arguments.project) w with ⟨_ | project', w'⟩
      · have hfailed : buildCommandCopy host denied arguments candidate copy heap =
            .ok (false, .zero, ⟨w', heap.allocations + (found.arguments.length + 2)⟩) := by
          rw [hbuilt, buildFrom]
          dsimp only [Heap.withWorld]
          rw [hproject]
        exact handled_of_failed hfailed rfl (hobserving.trans (advances_call hproject))
      · have hgranted' := hbuild hgrants (by rw [hproject]; exact Option.some_ne_none _)
        obtain ⟨command, heap', hended, hdestroy, hadvances⟩ :=
          buildFrom_of_granted copy found.directory found.arguments
            ⟨w, heap.allocations + (found.arguments.length + 2)⟩ hproject hgranted'
        have hbuilt' := hbuilt.trans hended
        cases herror : heap'.hasError with
        | true =>
            rw [herror] at hbuilt'
            exact handled_of_failed hbuilt' hdestroy (hobserving.trans hadvances)
        | false =>
            rw [herror] at hbuilt'
            exact handled_of_built herror hbuilt' hdestroy (hobserving.trans hadvances)

/-- **Failing allocations.** In an execution that begins without an error on record, the failures of
allocations are handled if and only if the arrays are allocated. -/
theorem handled_iff (hclean : heap.hasError = false) :
    Handled host denied arguments candidate copy heap project ↔
      ArraysGranted host denied arguments candidate heap :=
  ⟨arraysGranted_of_handled hclean, handled_of_arraysGranted hclean⟩

/-- An argument that is not allocated is handled: the observer fails, and nothing is built. -/
theorem handled_argument :
    (executeCommand buildingHost (fun k => k == 3) smallArguments smallCandidate "/p".toList "/tmp/c".toList
        ⟨⟨builtProject, none, 0, []⟩, 0⟩).toOption.map
          (fun run => (run.1, run.2.2.allocations, run.2.2.hasError)) = some (false, 4, true) ∧
      Handled buildingHost (fun k => k == 3) smallArguments smallCandidate "/tmp/c".toList
        ⟨⟨builtProject, none, 0, []⟩, 0⟩ "/p".toList := by
  refine ⟨by decide +kernel, (handled_iff rfl).mpr fun found w hfound => ⟨fun _ => rfl, fun hgrants => ?_⟩⟩
  obtain rfl : builtCommand = found := Option.some.inj (congrArg Prod.fst hfound)
  have hgranted := hgrants 3 (by decide) (by decide)
  cases hgranted

/-- The first array is walked and the second one is written to, though they are not allocated. -/
theorem not_handled_denied :
    ¬Handled buildingHost (fun k => k == 1) smallArguments smallCandidate "/tmp/c".toList
        ⟨⟨builtProject, none, 0, []⟩, 0⟩ "/p".toList ∧
      ¬Handled buildingHost (fun k => k == 7) smallArguments smallCandidate "/tmp/c".toList
        ⟨⟨builtProject, none, 0, []⟩, 0⟩ "/p".toList := by
  constructor
  · intro hhandled
    have hgranted := (arraysGranted_of_handled rfl hhandled builtCommand _ rfl).1 (by decide)
    cases hgranted
  · intro hhandled
    have hgrants : Grants (fun k => k == 7) 0 (builtCommand.arguments.length + 2) := by
      intro k _ hlt
      have hne : k ≠ 7 := by
        simp only [builtCommand, List.length_cons, List.length_nil] at hlt
        omega
      simpa using hne
    have hproject : (call buildingHost (canonicalize buildingHost smallArguments.project)
        (World.tick ⟨builtProject, none, 0, []⟩)).1 ≠ none := by
      decide +kernel
    have hgranted := (arraysGranted_of_handled rfl hhandled builtCommand _ rfl).2 hgrants hproject
    cases hgranted

/-! ### Granted allocations -/

theorem executeIn_eq (host : Host) (arguments : Arguments) (candidate : Candidate) (temp : Text) (w : World) :
    executeIn host arguments candidate temp w =
      match call host (canonicalize host arguments.project) w with
      | (none, w) => (false, .initial candidate, w)
      | (some project, w) =>
        match copyTree host project (copyText temp) w with
        | (false, w) => (false, .initial candidate, w)
        | (true, w) =>
          match applyCandidate host arguments candidate (copyText temp) w with
          | (false, w) => (false, .initial candidate, w)
          | (true, w) => checkAndTest host arguments candidate project (copyText temp) w := rfl

theorem buildCompileCommand_of_project {project' : Text} {w₁ w₂ : World}
    (hfound : call host (sourceCommand host arguments candidate) w = (some found, w₁))
    (hclean : w₁.hasError = false)
    (hproject : call host (canonicalize host arguments.project) w₁ = (some project', w₂)) :
    buildCompileCommand host arguments candidate copy w =
      (some ⟨(rewritePath host project' copy found.directory w₂).1,
          (rewriteAll host project' copy (keptArguments found.arguments)
            (rewritePath host project' copy found.directory w₂).2).1 ++ [syntaxOnly]⟩,
        (rewriteAll host project' copy (keptArguments found.arguments)
          (rewritePath host project' copy found.directory w₂).2).2) := by
  have hproducer := producer_mutationRewritePath host (fun _ => false) project' copy
  have herr : (rewriteAll host project' copy (keptArguments found.arguments)
      (rewritePath host project' copy found.directory w₂).2).2.hasError = false := by
    rw [← makeAll_rewritePath, World.hasError, hproducer.makeAll_err, rewritePath_err, (call_some hproject).2.1]
    exact hclean
  rw [buildCompileCommand, hfound]
  dsimp only
  rw [if_neg (by simp [hclean]), hproject]
  dsimp only
  rw [compileArguments_eq, if_neg (by simp [herr])]

theorem buildCompileCommand_of_noProject {w₁ w₂ : World}
    (hfound : call host (sourceCommand host arguments candidate) w = (some found, w₁))
    (hclean : w₁.hasError = false)
    (hproject : call host (canonicalize host arguments.project) w₁ = (none, w₂)) :
    buildCompileCommand host arguments candidate copy w = (none, w₂) := by
  rw [buildCompileCommand, hfound]
  dsimp only
  rw [if_neg (by simp [hclean]), hproject]

theorem commandObserver_of_granting (hgrants : ∀ k, denied k = false) (command : CompileCommand)
    (hclean : heap.hasError = false) :
    commandObserver denied command heap =
      .ok (true, ⟨some command.directory, filled command.arguments 2, command.arguments.length⟩,
        ⟨heap.world, heap.allocations + (command.arguments.length + 2)⟩) :=
  commandObserver_of_grants command hclean fun k _ _ => hgrants k

/-- The command in memory, where all allocations succeed and the project is canonicalized. -/
theorem buildCommandCopy_of_project {project' : Text} {w₁ w₂ : World} (copy : Text)
    (hgrants : ∀ k, denied k = false) (hclean : heap.hasError = false)
    (hfound : call host (sourceCommand host arguments candidate) heap.world = (some found, w₁))
    (hproject : call host (canonicalize host arguments.project) w₁ = (some project', w₂)) :
    ∃ allocations, buildCommandCopy host denied arguments candidate copy heap =
      .ok (true,
        ⟨some (rewritePath host project' copy found.directory w₂).1,
          filled ((rewriteAll host project' copy (keptArguments found.arguments)
            (rewritePath host project' copy found.directory w₂).2).1 ++ [syntaxOnly])
            (found.arguments.length + 1 - (keptArguments found.arguments).length),
          (keptArguments found.arguments).length + 1⟩,
        ⟨(rewriteAll host project' copy (keptArguments found.arguments)
            (rewritePath host project' copy found.directory w₂).2).2, allocations⟩) := by
  have hclean₁ := hasError_of_call hclean hfound
  exact ⟨_, (buildCommandCopy_of_observed copy hfound (commandObserver_of_granting hgrants found hclean₁)).trans
    (buildFrom_of_grants copy found.directory found.arguments
      ⟨w₁, heap.allocations + (found.arguments.length + 2)⟩ hclean₁ hproject fun k _ _ => hgrants k)⟩

/-- Where all allocations succeed, building in memory is building the compile check. -/
theorem buildCommandCopy_of_granting (arguments : Arguments) (candidate : Candidate) (copy : Text)
    (hgrants : ∀ k, denied k = false) (hclean : heap.hasError = false) :
    ∃ command allocations,
      buildCommandCopy host denied arguments candidate copy heap =
        .ok ((buildCompileCommand host arguments candidate copy heap.world).1.isSome, command,
          ⟨(buildCompileCommand host arguments candidate copy heap.world).2, allocations⟩) ∧
      destroyCommand command = .ok () ∧
      ∀ built ∈ (buildCompileCommand host arguments candidate copy heap.world).1, command.command = built := by
  rcases hfound : call host (sourceCommand host arguments candidate) heap.world with ⟨_ | found, w⟩
  · refine ⟨.zero, heap.allocations, ?_, rfl, ?_⟩
    · rw [buildCommandCopy, buildCompileCommand, hfound]
      rfl
    · rw [buildCompileCommand, hfound]
      exact fun built hbuilt => by cases hbuilt
  · have hclean₁ := hasError_of_call hclean hfound
    rcases hproject : call host (canonicalize host arguments.project) w with ⟨_ | project', w'⟩
    · rw [buildCompileCommand_of_noProject hfound hclean₁ hproject,
        buildCommandCopy_of_observed copy hfound (commandObserver_of_granting hgrants found hclean₁)]
      refine ⟨.zero, heap.allocations + (found.arguments.length + 2), ?_, rfl,
        fun built hbuilt => by cases hbuilt⟩
      rw [buildFrom]
      dsimp only [Heap.withWorld]
      rw [hproject]
      rfl
    · obtain ⟨allocations, hbuilt⟩ := buildCommandCopy_of_project copy hgrants hclean hfound hproject
      rw [buildCompileCommand_of_project hfound hclean₁ hproject, hbuilt]
      refine ⟨_, allocations, rfl, destroyCommand_some ?_, fun built hbuilt => ?_⟩
      · rw [← makeAll_rewritePath]
        simp [length_makeAll]
      · obtain rfl := Option.some.inj hbuilt
        rw [CommandCopy.command, untilNull_filled]
        rfl

/-- Where all allocations succeed, the execution in memory is that of a candidate. -/
theorem executeCommand_of_granting (hgrants : ∀ k, denied k = false) (hclean : heap.hasError = false) :
    ∃ allocations, executeCommand host denied arguments candidate project copy heap =
      .ok ((checkAndTest host arguments candidate project copy heap.world).1,
        (checkAndTest host arguments candidate project copy heap.world).2.1,
        ⟨(checkAndTest host arguments candidate project copy heap.world).2.2, allocations⟩) := by
  obtain ⟨command, allocations, hbuilt, hdestroy, hcommand⟩ :=
    buildCommandCopy_of_granting arguments candidate copy hgrants hclean
  refine ⟨allocations, ?_⟩
  rw [executeCommand, hbuilt, checkAndTest]
  dsimp only
  rw [hdestroy]
  rcases hcheck : buildCompileCommand host arguments candidate copy heap.world with ⟨_ | built, w'⟩
  · rfl
  · rw [hcheck] at hcommand
    rw [hcommand built rfl]
    rfl

end P101Test.Mutation
