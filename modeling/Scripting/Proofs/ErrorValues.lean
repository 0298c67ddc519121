import Scripting.Command
import Scripting.Proofs.CallEffects
import Scripting.Proofs.Sessions

/-!
# Errors are no data

The result of a failed program is a value of a kind of its own. No code ever gets hold of such a
value: in a session there is none in a frame, an array or a hash, no expression has it as its value,
no call is given it and no call returns it.
-/

namespace Scripting

open Evaluation

/-- No other kind is called like that of failed programs. -/
theorem Kind.eq_error_of_name {k : Kind} (same : k.name = Kind.error.name) : k = .error := by
  revert same
  cases k <;> decide

/-- The value is not the result of a failed program. -/
def Value.IsData (v : Value) : Prop := v.kind ≠ .error

instance (v : Value) : Decidable v.IsData := inferInstanceAs (Decidable (v.kind ≠ .error))

theorem Value.isData_of_isPlain {v : Value} (plain : v.isPlain) : v.IsData := by
  cases v with
  | array | hash | function | error => cases plain
  | _ => nofun

theorem forall_mem_modify {α : Type} {P : α → Prop} {xs : Array α} {i : Nat} {f : α → α}
    (all : ∀ x ∈ xs, P x) (changed : ∀ x ∈ xs, P x → P (f x)) : ∀ x ∈ xs.modify i f, P x := by
  intro x member
  obtain ⟨j, found⟩ := Array.mem_iff_getElem?.mp member
  rw [Array.getElem?_modify] at found
  split at found
  · obtain ⟨y, here, rfl⟩ := Option.map_eq_some_iff.mp found
    have old := Array.mem_of_getElem? here
    exact changed y old (all y old)
  · exact all x (Array.mem_of_getElem? found)

namespace Heap

/-- Whatever is held in a frame, an array or a hash is data. -/
structure HoldsData (h : Heap) : Prop where
  frames : ∀ frame ∈ h.scopes.frames, ∀ b ∈ frame.bindings, b.2.IsData
  storages : ∀ storage ∈ h.arrays.storages, ∀ v ∈ storage.slots, v.IsData
  tables : ∀ t ∈ h.tables, ∀ e ∈ t.entries, e.name.IsData ∧ e.value.IsData

instance (h : Heap) : Decidable h.HoldsData :=
  decidable_of_iff ((∀ frame ∈ h.scopes.frames, ∀ b ∈ frame.bindings, b.2.IsData) ∧
      (∀ storage ∈ h.arrays.storages, ∀ v ∈ storage.slots, v.IsData) ∧
      ∀ t ∈ h.tables, ∀ e ∈ t.entries, e.name.IsData ∧ e.value.IsData)
    ⟨fun ⟨frames, storages, tables⟩ => ⟨frames, storages, tables⟩,
      fun ⟨frames, storages, tables⟩ => ⟨frames, storages, tables⟩⟩

namespace HoldsData

variable {h : Heap} (held : h.HoldsData)
include held

/-! ### What is read -/

theorem binding {f : FrameId} {name : String} {v : Value}
    (found : h.scopes.getCurrent f name = some v) : v.IsData := by
  obtain ⟨frame, there, bound⟩ := Option.bind_eq_some_iff.mp found
  obtain ⟨b, inside, rfl⟩ := Bindings.exists_of_find? bound
  exact held.frames frame (Array.mem_of_getElem? there) b inside

theorem slot {a : ArrayId} {i : Nat} {v : Value} (found : (h.arrays.slots a)[i]? = some v) :
    v.IsData := by
  unfold ArrayStore.slots at found
  rw [Array.getD_eq_getD_getElem?] at found
  cases there : h.arrays.storages[(h.arrays.view a).storage]? with
  | none =>
    rw [there] at found
    cases found
  | some storage =>
    rw [there] at found
    exact held.storages storage (Array.mem_of_getElem? there) v (Array.mem_of_getElem? found)

theorem entry {id : HashId} {k : Key} {v : Value} (found : (h.table id).find? k = some v) :
    v.IsData := by
  obtain ⟨e, inside, rfl⟩ := Table.exists_of_find? found
  unfold table at inside
  rw [Array.getD_eq_getD_getElem?] at inside
  cases there : h.tables[id]? with
  | none =>
    rw [there] at inside
    exact absurd inside (Array.not_mem_empty e)
  | some t =>
    rw [there] at inside
    exact (held.tables t (Array.mem_of_getElem? there) e inside).2

/-! ### What is changed -/

theorem pushFrame {frame : Frame} (data : ∀ b ∈ frame.bindings, b.2.IsData) :
    HoldsData { h with scopes := ⟨h.scopes.frames.push frame⟩ } := by
  refine { held with frames := ?_ }
  intro other member
  rcases Array.mem_push.mp member with old | rfl
  · exact held.frames other old
  · exact data

theorem modifyFrame (f : FrameId) {g : Bindings → Bindings}
    (data : ∀ bs : Bindings, (∀ b ∈ bs, b.2.IsData) → ∀ b ∈ g bs, b.2.IsData) :
    HoldsData { h with scopes := h.scopes.modify f g } := by
  refine { held with frames := ?_ }
  change ∀ frame ∈ h.scopes.frames.modify f fun frame => ⟨g frame.bindings, frame.parent⟩, _
  exact forall_mem_modify held.frames fun frame _ old => data frame.bindings old

theorem pushStorage {storage : Storage} (data : ∀ v ∈ storage.slots, v.IsData)
    (views : Array View) :
    HoldsData { h with arrays := ⟨views, h.arrays.storages.push storage⟩ } := by
  refine { held with storages := ?_ }
  intro other member
  rcases Array.mem_push.mp member with old | rfl
  · exact held.storages other old
  · exact data

theorem modifyStorage (n : Nat) {g : Storage → Storage}
    (data : ∀ storage : Storage, (∀ v ∈ storage.slots, v.IsData) →
      ∀ v ∈ (g storage).slots, v.IsData) (views : Array View) :
    HoldsData { h with arrays := ⟨views, h.arrays.storages.modify n g⟩ } := by
  refine { held with storages := ?_ }
  exact forall_mem_modify held.storages fun storage _ => data storage

theorem set (a : ArrayId) (i : Nat) {x : Value} (data : x.IsData) :
    (h.onArrays (·.set a i x)).2.HoldsData := by
  change HoldsData { h with arrays := (h.arrays.set a i x).2 }
  rw [ArrayStore.set_eq]
  dsimp only
  split
  · refine held.modifyStorage _ (fun storage old v member => ?_) _
    rcases Array.mem_or_eq_of_mem_setIfInBounds member with inside | rfl
    · exact old v inside
    · exact data
  · exact held

theorem push (a : ArrayId) {x : Value} (data : x.IsData) :
    (h.onArrays (·.push a x)).2.HoldsData := by
  refine held.modifyStorage _ (fun storage old v member => ?_) _
  dsimp only at member
  split at member
  · rcases Array.mem_or_eq_of_mem_setIfInBounds member with inside | rfl
    · exact old v inside
    · exact data
  · rcases Array.mem_push.mp member with inside | rfl
    · exact old v inside
    · exact data

theorem pop (a : ArrayId) : (h.onArrays (·.pop a)).2.HoldsData := by
  change HoldsData { h with arrays := (h.arrays.pop a).2 }
  rw [ArrayStore.pop_eq]
  split
  · exact held
  · refine held.modifyStorage _ (fun storage old v member => ?_) _
    dsimp only at member
    split at member
    · rw [Array.take_eq_extract] at member
      obtain ⟨k, _, rfl⟩ := Array.mem_extract_iff_getElem.mp member
      exact old _ (Array.getElem_mem _)
    · exact old v member

theorem newHash {t : Table} (data : ∀ e ∈ t.entries, e.name.IsData ∧ e.value.IsData) :
    (h.newHash t).2.HoldsData := by
  refine { held with tables := ?_ }
  intro other member
  rcases Array.mem_push.mp member with old | rfl
  · exact held.tables other old
  · exact data

theorem modifyTable (id : HashId) {g : Table → Table}
    (data : ∀ t : Table, (∀ e ∈ t.entries, e.name.IsData ∧ e.value.IsData) →
      ∀ e ∈ (g t).entries, e.name.IsData ∧ e.value.IsData) :
    (h.modifyTable id g).HoldsData := by
  refine { held with tables := ?_ }
  exact forall_mem_modify held.tables fun t _ => data t

end HoldsData

/-- Evaluation handles data only. -/
def handlingData : Discipline where
  Sound := HoldsData
  Open _ _ := True
  Allowed _ v := v.IsData
  Step _ _ := True
  refl _ := trivial
  trans _ _ := trivial
  open_mono _ _ := trivial
  allowed_mono _ data := data
  plain _ _ plain := Value.isData_of_isPlain plain
  parent _ _ _ := trivial
  binding held _ found := held.binding found
  captured _ _ := trivial
  slot held _ found := held.slot found
  entry held _ found := held.entry found
  child held _ data := ⟨⟨held.pushFrame data, trivial⟩, trivial⟩
  bind held _ data := by
    refine ⟨held.modifyFrame _ fun bs old b member => ?_, trivial⟩
    rcases Discipline.mem_put member with inside | same
    · exact old b inside
    · rw [same]
      exact data
  unbind held _ :=
    ⟨held.modifyFrame _ fun _ old b member => old b (Bindings.mem_of_mem_drop member), trivial⟩
  newArray held data := ⟨⟨held.pushStorage data _, trivial⟩, nofun⟩
  newView held _ _ _ := by
    refine ⟨⟨?_, trivial⟩, nofun⟩
    exact held.modifyStorage _ (g := fun s => ⟨s.slots, s.views + 1⟩) (fun _ old => old) _
  set held _ _ data := ⟨held.set _ _ data, trivial⟩
  push held _ data := ⟨held.push _ data, trivial⟩
  pop held _ := ⟨held.pop _, trivial⟩
  newHash held _ data := ⟨⟨held.newHash data, trivial⟩, nofun⟩
  putEntry held _ named data := by
    refine ⟨held.modifyTable _ fun t old e member => ?_, trivial⟩
    rcases Table.mem_or_eq_of_mem_put member with inside | rfl
    · exact old e inside
    · exact ⟨named, data⟩
  eraseEntry held _ :=
    ⟨held.modifyTable _ fun _ old e member => old e (Table.mem_of_mem_erase member), trivial⟩
  newFunction held _ := ⟨⟨{ held with }, trivial⟩, nofun⟩

end Heap

namespace Machine

/-- Raises the alarm unless these values and everything in the heap are data. -/
def watch (alarm : Eval Unit) (vs : List Value) : Eval Unit := fun m =>
  insist alarm (m.heap.HoldsData ∧ ∀ v ∈ vs, v.IsData) m

theorem watch_of {m : Machine} (held : m.heap.HoldsData) {vs : List Value}
    (data : ∀ v ∈ vs, v.IsData) (alarm : Eval Unit) : watch alarm vs m = .done () m :=
  congrFun (insist_of ⟨held, data⟩) m

end Machine

namespace Primitives

open Machine

/-- Evaluation that looks out for errors among the data: in the heap before and after every
expression and statement, in every value that comes up, is given to a call or returned, and in what
is asked for its kind. -/
def watched (alarm : Eval Unit) : Primitives :=
  { standard with
    check := do
      watch alarm []
      Machine.check
    observe := watch alarm
    typeof := fun v => do
      insist alarm (v.kind.name ≠ Kind.error.name)
      pure (.text v.kind.name) }

theorem fits_watched (alarm : Eval Unit) :
    (Coupling.identity Heap.handlingData).Fits (watched alarm) := by
  have standard := Coupling.fits_identity (D := Heap.handlingData)
  refine { standard with check := ?_, observe := ?_, typeof := ?_ }
  · intro h f ready
    apply Coupling.couples_check_identity ready.sound
    rintro m rfl _
    change (watch alarm [] >>= fun _ => Machine.check) m = Machine.check m
    rw [Attempt.bind_run, watch_of ready.sound (by simp)]
  · intro h f vs ready data
    apply (standard.observe ready data).of_eq
    rintro m rfl _
    exact watch_of ready.sound data alarm
  · intro h f v ready data
    apply (standard.typeof ready data).of_eq
    intro m _ _
    have other : v.kind.name ≠ Kind.error.name := fun same => data (Kind.eq_error_of_name same)
    change (insist alarm _ >>= fun _ => pure (.text v.kind.name) : Eval Value) m = _
    rw [insist_of other]
    rfl

end Primitives

namespace Machine

theorem ready_new (clock : Nat → String) :
    Heap.handlingData.Ready (new clock).heap (new clock).scope := by
  refine ⟨?_, trivial⟩
  change (Heap.mk .empty #[] ⟨#[⟨[], none⟩]⟩ #[]).HoldsData
  decide

variable {m m' : Machine}

/-- Code that completes with a value or returns one does so with data. -/
theorem completion_isData {piece : Piece} {fuel : Nat} {c : Completion} {v : Value}
    (kept : Heap.handlingData.Keeps m.heap m.scope (piece.evaluation fuel)
      Heap.handlingData.Allowed)
    (ended : m.complete (piece.evaluation fuel) = some (c, m'))
    (result : c = .value v ∨ c = .returned v) : v.IsData := by
  have ends := kept m rfl rfl
  obtain ⟨w, rfl, ran⟩ | ⟨stop, rfl, ran⟩ := complete_cases ended
  · rw [ran] at ends
    rcases result with same | same
    · cases same
      exact ends.2.2
    · cases same
  · rw [ran] at ends
    cases stop with
    | returned w =>
      rcases result with same | same
      · cases same
      · cases same
        exact ends.2.2
    | error | broke | continued => rcases result with same | same <;> cases same

/-- A program has an error as its result if and only if it fails. -/
theorem result_kind_eq_error_iff {c : Completion}
    (data : ∀ v, c = .value v ∨ c = .returned v → v.IsData) :
    c.result.kind = .error ↔ ∃ e, c = .failed e := by
  cases c with
  | value v =>
    refine ⟨fun error => absurd error (data v (.inl rfl)), ?_⟩
    rintro ⟨e, ⟨⟩⟩
  | returned v =>
    refine ⟨fun error => absurd error (data v (.inr rfl)), ?_⟩
    rintro ⟨e, ⟨⟩⟩
  | broke | continued =>
    constructor
    · rintro ⟨⟩
    · rintro ⟨e, ⟨⟩⟩
  | failed e => exact ⟨fun _ => ⟨e, rfl⟩, fun _ => rfl⟩

namespace Session

/-- Data only is what evaluation has to do with in a session. -/
theorem handlesData (session : Session m) : Heap.handlingData.Ready m.heap m.scope :=
  session.ready ready_new

theorem completion_isData (session : Session m) (piece : Piece) (code : piece.isCode) {fuel : Nat}
    {c : Completion} (ended : m.complete (piece.evaluation fuel) = some (c, m')) :
    ∀ v, c = .value v ∨ c = .returned v → v.IsData := by
  intro v
  exact Machine.completion_isData (piece.keeps_of_allowed fuel session.handlesData
    (Piece.allowed_of_isCode code _ _)) ended

theorem evalProgram_kind_eq_error_iff (session : Session m) {p : Program Unit} {v : Value}
    (ended : m.evalProgram p = some (v, m')) :
    v.kind = .error ↔ ∃ e, m.evalStatements p.stmts = some (.failed e, m') := by
  obtain ⟨⟨c, n⟩, completed, same⟩ := Option.map_eq_some_iff.mp ended
  cases same
  rw [completed, result_kind_eq_error_iff (session.completion_isData (.program p) rfl completed)]
  constructor
  · rintro ⟨e, rfl⟩
    exact ⟨e, rfl⟩
  · rintro ⟨e, same⟩
    cases same
    exact ⟨e, rfl⟩

end Session

end Machine

namespace Command

/-- The script has a source free of errors, and its evaluation completes by failing. -/
def ScriptFails (source : String) (cancellation : Cancellation) (clock : Nat → String) : Prop :=
  ∃ program e m, parseProgram source = .ok program ∧
    { Machine.new clock with cancellation }.evalStatements program.stmts = some (.failed e, m)

theorem exitCode_valueReport_eq_iff (v : Value) (m : Machine) :
    (valueReport v m).exitCode = 70 ↔ v.kind = .error := by
  unfold valueReport
  dsimp only
  split
  · rename_i error
    exact ⟨fun _ => error, fun _ => rfl⟩
  · rename_i data
    exact ⟨nofun, fun error => absurd error data⟩

/-- A script ends with the code of a failure if and only if it fails, whatever signal may cut it
short. -/
theorem runScript_exitCode_eq_iff (source : String) (cancellation : Cancellation)
    (clock : Nat → String) :
    (∃ report, runScript source cancellation clock = some report ∧ report.exitCode = 70) ↔
      ScriptFails source cancellation clock := by
  have session : Machine.Session { Machine.new clock with cancellation } :=
    .connect _ _ _ (.start clock)
  cases parsed : parseProgram source with
  | error errors =>
    have refused : runScript source cancellation clock = some ⟨65, errorLines errors⟩ := by
      rw [runScript, runProgram, parsed]
      rfl
    rw [refused]
    constructor
    · rintro ⟨_, ⟨⟩, ⟨⟩⟩
    · rintro ⟨_, _, _, other, _⟩
      rw [parsed] at other
      cases other
  | ok program =>
    have ran : runScript source cancellation clock =
        ({ Machine.new clock with cancellation }.evalProgram program).map
          fun (v, m) => valueReport v m := by
      rw [runScript, runProgram, parsed]
      rfl
    rw [ran]
    constructor
    · rintro ⟨_, reported, code⟩
      obtain ⟨⟨v, m⟩, ended, rfl⟩ := Option.map_eq_some_iff.mp reported
      have error : v.kind = .error := (exitCode_valueReport_eq_iff v m).mp code
      obtain ⟨e, failed⟩ := (session.evalProgram_kind_eq_error_iff ended).mp error
      exact ⟨program, e, m, parsed, failed⟩
    · rintro ⟨other, e, m, same, failed⟩
      rw [parsed] at same
      cases same
      have ended : { Machine.new clock with cancellation }.evalProgram program =
          some (.error e.message, m) := by
        rw [Machine.evalProgram, failed]
        rfl
      rw [ended]
      exact ⟨_, rfl, (exitCode_valueReport_eq_iff _ m).mpr rfl⟩

/-- A script fails at the check at which its deadline passes, here that of the expression. -/
example : ∃ report, runScript "1" (.atDeadline (some 1)) (fun _ => "") = some report ∧
    report.exitCode = 70 := by
  have parsed : parseProgram "1" = .ok ⟨[.expression () (.literal () (.integer 1))]⟩ := by cbv
  rw [runScript, runProgram, parsed]
  exact ⟨_, rfl, rfl⟩

section Run

variable {args : List String} {file : String → Option ByteArray} {input : ByteArray}
  {checks : Nat → Option Nat} {clock : Nat → String} {script source : String}
  {deadline : Option Nat}

theorem run_of_script (asked : request args = some (.run script deadline))
    (readable : ((file script).bind fun bytes => String.fromUTF8? bytes) = some source) :
    run args file input checks clock =
      runScript source (.atDeadline (deadline.bind checks)) clock := by
  unfold run
  rw [asked]
  dsimp only
  rw [readable]

/-- Only a script that can be read ends the command with the code of a failure. -/
theorem script_of_exitCode {report : Report}
    (reported : run args file input checks clock = some report) (code : report.exitCode = 70) :
    ∃ script deadline source, request args = some (.run script deadline) ∧
      ((file script).bind fun bytes => String.fromUTF8? bytes) = some source := by
  unfold run at reported
  cases asked : request args with
  | none =>
    rw [asked] at reported
    cases reported
    cases code
  | some request =>
    rw [asked] at reported
    cases request with
    | showVersion | showHelp =>
      cases reported
      cases code
    | prompt =>
      obtain ⟨_, _, rfl⟩ := Option.map_eq_some_iff.mp reported
      cases code
    | run script deadline =>
      dsimp only at reported
      cases readable : (file script).bind fun bytes => String.fromUTF8? bytes with
      | none =>
        rw [readable] at reported
        cases reported
        cases code
      | some source => exact ⟨script, deadline, source, rfl, readable⟩

end Run

/-- The command ends with the code of a failure if and only if it is asked to run a script that it
can read and that fails. -/
theorem run_exitCode_eq_iff (args : List String) (file : String → Option ByteArray)
    (input : ByteArray) (checks : Nat → Option Nat) (clock : Nat → String) :
    (∃ report, run args file input checks clock = some report ∧ report.exitCode = 70) ↔
      ∃ script deadline source, request args = some (.run script deadline) ∧
        ((file script).bind fun bytes => String.fromUTF8? bytes) = some source ∧
        ScriptFails source (.atDeadline (deadline.bind checks)) clock := by
  constructor
  · rintro ⟨report, reported, code⟩
    obtain ⟨script, deadline, source, asked, readable⟩ := script_of_exitCode reported code
    rw [run_of_script asked readable] at reported
    have fails := (runScript_exitCode_eq_iff source _ clock).mp ⟨report, reported, code⟩
    exact ⟨script, deadline, source, asked, readable, fails⟩
  · rintro ⟨script, deadline, source, asked, readable, fails⟩
    rw [run_of_script asked readable]
    exact (runScript_exitCode_eq_iff source _ clock).mpr fails

end Command

namespace Machine

/-- In every session there is no error among the data. Frames, arrays and hashes hold none. Code
that is evaluated next, whatever it is, goes as it does with somebody watching who raises an alarm at
the first error in the heap, as a value, as an argument, as a value returned or as what is asked for
its kind; and it does not complete with one. So a program has an error as its result if and only if
it fails, and the command has a code for just that, after however many checks a deadline passes. -/
theorem errors_never_become_data :
    (∀ m : Machine, Session m →
      m.heap.HoldsData ∧
      (∀ (piece : Piece) (fuel : Nat), piece.isCode →
        (∀ alarm, (Primitives.watched alarm).evaluation fuel piece m = piece.evaluation fuel m) ∧
        ∀ c m', m.complete (piece.evaluation fuel) = some (c, m') →
          Session m' ∧ ∀ v, c = .value v ∨ c = .returned v → v.IsData) ∧
      ∀ (p : Program Unit) (v : Value) (m' : Machine), m.evalProgram p = some (v, m') →
        (v.kind = .error ↔ ∃ e, m.evalStatements p.stmts = some (.failed e, m'))) ∧
    ∀ (args : List String) (file : String → Option ByteArray) (input : ByteArray)
      (checks : Nat → Option Nat) (clock : Nat → String),
      (∃ report, Command.run args file input checks clock = some report ∧ report.exitCode = 70) ↔
        ∃ script deadline source, Command.request args = some (.run script deadline) ∧
          ((file script).bind fun bytes => String.fromUTF8? bytes) = some source ∧
          Command.ScriptFails source (.atDeadline (deadline.bind checks)) clock := by
  refine ⟨fun m session => ⟨session.handlesData.sound, ?_, ?_⟩, Command.run_exitCode_eq_iff⟩
  · intro piece fuel code
    refine ⟨fun alarm => ?_, fun c m' ended => ?_⟩
    · exact piece.evaluation_eq (Primitives.fits_watched alarm) fuel session.handlesData
        (Piece.allowed_of_isCode code _ _)
    · exact ⟨session.evaluate piece fuel code ended, session.completion_isData piece code ended⟩
  · intro p v m' ended
    exact session.evalProgram_kind_eq_error_iff ended

/-- A program binds `x` to an array and then fails. The next one asks for the kind of `x`, and nobody
who watches it raises an alarm. -/
theorem errors_never_become_data_after_failure :
    let name (s : String) : Expr Unit := .identifier () ⟨s, ()⟩
    let first : Piece := .program ⟨[.letBinding () ⟨"x", ()⟩ (.array () [.literal () .null]),
      .expression () (name "y")]⟩
    let second : Piece := .expression (.typeof () (name "x"))
    ∃ m₁ m₂, (new fun _ => "").complete (first.evaluation 9) =
        some (.failed (.unknownIdentifier "y"), m₁) ∧
      m₁.heap.HoldsData ∧ m₁.complete (second.evaluation 9) = some (.value (.text "ARRAY"), m₂) ∧
      m₂.heap.HoldsData ∧
      ∀ alarm, (Primitives.watched alarm).evaluation 9 second m₁ = second.evaluation 9 m₁ := by
  intro name first second
  have failed : ∃ m₁ m₂, (new fun _ => "").complete (first.evaluation 9) =
      some (.failed (.unknownIdentifier "y"), m₁) ∧
      m₁.complete (second.evaluation 9) = some (.value (.text "ARRAY"), m₂) := ⟨_, _, rfl, rfl⟩
  obtain ⟨m₁, m₂, failed, asked⟩ := failed
  obtain ⟨sessions, _⟩ := errors_never_become_data
  have session₁ : Session m₁ := .evaluate first 9 (.start _) rfl failed
  have session₂ : Session m₂ := .evaluate second 9 session₁ rfl asked
  obtain ⟨held, watched, _⟩ := sessions m₁ session₁
  exact ⟨m₁, m₂, failed, held, asked, (sessions m₂ session₂).1, (watched second 9 rfl).1⟩

end Machine

end Scripting
