import Mathlib.Logic.Function.Basic
import Mathlib.Data.List.Basic

/-!
# Programs with scoped guards

A scoped program works on cells named by keys. It reads and changes a cell only inside a
scope: entering the scope takes a guard on the cell, for reading or for writing, and
leaving it releases that guard, so guards nest. The programs are data, and one program
has several readings: `Scoped.run` is its effect on a plain store, `Scoped.wp` its
weakest precondition under a discipline for the guards it holds, and a cache or a lock
model may execute the same program step by step.
-/

namespace Canyon.Lib

open EStateM (Result)

/-- How a guard holds its cell: shared with other readers, or alone. -/
inductive Access where
  | read
  | write
  deriving DecidableEq, Repr

/-- A program over cells of content `β` named by keys `κ`, failing with errors `ε`. -/
inductive Scoped (κ β ε : Type) : Type → Type 1 where
  /-- Finish with a value. -/
  | pure {α : Type} (value : α) : Scoped κ β ε α
  /-- Stop with an error. -/
  | fail {α : Type} (error : ε) : Scoped κ β ε α
  /-- Run a body under a shared guard on one cell. -/
  | reading {α γ : Type} (key : κ) (body : β → Scoped κ β ε γ)
      (next : γ → Scoped κ β ε α) : Scoped κ β ε α
  /-- Run a body under an exclusive guard on one cell; the body may leave new content. -/
  | writing {α γ : Type} (key : κ) (body : β → Scoped κ β ε (γ × Option β))
      (next : γ → Scoped κ β ε α) : Scoped κ β ε α
  /-- Bring the cells behind the store up to date. -/
  | flush {α : Type} (next : Scoped κ β ε α) : Scoped κ β ε α

namespace Scoped

variable {κ β ε : Type} {α γ δ : Type}

/-- Sequencing, pushed through the scopes to their continuations. -/
def bind : {α γ : Type} → Scoped κ β ε α → (α → Scoped κ β ε γ) → Scoped κ β ε γ
  | _, _, .pure value, rest => rest value
  | _, _, .fail error, _ => .fail error
  | _, _, .reading key body next, rest => .reading key body fun found => (next found).bind rest
  | _, _, .writing key body next, rest => .writing key body fun found => (next found).bind rest
  | _, _, .flush next, rest => .flush (next.bind rest)

instance : Monad (Scoped κ β ε) where
  pure := Scoped.pure
  bind := Scoped.bind

/-- The monad's sequencing is `Scoped.bind`. -/
@[simp] theorem bind_eq (program : Scoped κ β ε α) (rest : α → Scoped κ β ε γ) :
    program >>= rest = program.bind rest := rfl

/-- The monad's return is `Scoped.pure`. -/
@[simp] theorem pure_eq (value : α) : (Pure.pure value : Scoped κ β ε α) = .pure value := rfl

/-- Nothing follows a program. -/
theorem bind_pure (program : Scoped κ β ε α) : program.bind .pure = program := by
  induction program with
  | pure value => rfl
  | fail error => rfl
  | reading key body next _ ih => simp only [bind, ih]
  | writing key body next _ ih => simp only [bind, ih]
  | flush next ih => simp only [bind, ih]

/-- Sequencing is associative. -/
theorem bind_assoc (program : Scoped κ β ε α) (rest : α → Scoped κ β ε γ)
    (last : γ → Scoped κ β ε δ) :
    (program.bind rest).bind last = program.bind fun value => (rest value).bind last := by
  induction program with
  | pure value => rfl
  | fail error => rfl
  | reading key body next _ ih => simp only [bind, ih]
  | writing key body next _ ih => simp only [bind, ih]
  | flush next ih => simp only [bind, ih]

instance : LawfulMonad (Scoped κ β ε) :=
  LawfulMonad.mk' _ bind_pure (fun _ _ => rfl) bind_assoc

/-- Read a cell: the body runs under the guard and its value is the result. -/
def read (key : κ) (body : β → Scoped κ β ε γ) : Scoped κ β ε γ :=
  .reading key body .pure

/-- Lock a cell for writing: the body runs under the guard and may leave new content. -/
def write (key : κ) (body : β → Scoped κ β ε (γ × Option β)) : Scoped κ β ε γ :=
  .writing key body .pure

/-- Content left by a writing scope: the old one unless the body made a new one. -/
def put [DecidableEq κ] (store : κ → β) (key : κ) : Option β → κ → β
  | none => store
  | some content => Function.update store key content

/-- Effect of a program on a plain store. A failed program reports the store it reached. -/
def run [DecidableEq κ] : {α : Type} → Scoped κ β ε α → (κ → β) → Result ε (κ → β) α
  | _, .pure value, store => .ok value store
  | _, .fail error, store => .error error store
  | _, .reading key body next, store =>
    match run (body (store key)) store with
    | .ok found store => run (next found) store
    | .error error store => .error error store
  | _, .writing key body next, store =>
    match run (body (store key)) store with
    | .ok found store => run (next found.1) (put store key found.2)
    | .error error store => .error error store
  | _, .flush next, store => run next store

/-- The value that a program returns on a store, unless it fails. -/
def value? [DecidableEq κ] (program : Scoped κ β ε α) (store : κ → β) : Option α :=
  match program.run store with
  | .ok value _ => some value
  | .error _ _ => none

/-- The value of a program that returns. -/
theorem value?_of_run [DecidableEq κ] {program : Scoped κ β ε α} {store after : κ → β} {value : α}
    (ran : program.run store = .ok value after) : program.value? store = some value := by
  rw [value?, ran]

/-- What a program owes its guards: every key it asks for is valid, none is held already,
and it never holds more than `limit` of them. -/
structure Discipline (κ : Type) where
  /-- Largest number of guards held at once. -/
  limit : Nat
  /-- Keys that name a cell. -/
  Valid : κ → Prop

/-- A key may be asked for while the listed keys are held. -/
structure Discipline.Admits (rules : Discipline κ) (held : List κ) (key : κ) : Prop where
  /-- The key names a cell. -/
  valid : rules.Valid key
  /-- No guard on the cell is held. -/
  free : key ∉ held
  /-- One more guard is within the limit. -/
  room : held.length < rules.limit

/-- Weakest precondition: from this store, holding these keys, the program keeps to the
rules, and its outcome satisfies `post` with its value or `failed` with its error. -/
def wp [DecidableEq κ] (rules : Discipline κ) : {α : Type} → Scoped κ β ε α → List κ →
    (α → (κ → β) → Prop) → (ε → (κ → β) → Prop) → (κ → β) → Prop
  | _, .pure value, _, post, _, store => post value store
  | _, .fail error, _, _, failed, store => failed error store
  | _, .reading key body next, held, post, failed, store =>
    rules.Admits held key ∧
      wp rules (body (store key)) (key :: held)
        (fun found store => wp rules (next found) held post failed store) failed store
  | _, .writing key body next, held, post, failed, store =>
    rules.Admits held key ∧
      wp rules (body (store key)) (key :: held)
        (fun found store => wp rules (next found.1) held post failed (put store key found.2))
        failed store
  | _, .flush next, held, post, failed, store =>
    held = [] ∧ wp rules next held post failed store

section Rules

variable [DecidableEq κ] {rules : Discipline κ} {held : List κ} {failed laxer : ε → (κ → β) → Prop}
  {store : κ → β} {program : Scoped κ β ε α} {post : γ → (κ → β) → Prop}

/-- A weaker postcondition and a weaker failure condition keep the precondition. -/
theorem wp_mono {post weaker : α → (κ → β) → Prop} (holds : wp rules program held post failed store)
    (values : ∀ value store, post value store → weaker value store)
    (errors : ∀ error store, failed error store → laxer error store) :
    wp rules program held weaker laxer store := by
  induction program generalizing held store with
  | pure value => exact values _ _ holds
  | fail error => exact errors _ _ holds
  | reading key body next bodyIH nextIH =>
    refine ⟨holds.1, bodyIH _ holds.2 ?_⟩
    intro found store rest
    exact nextIH found rest values
  | writing key body next bodyIH nextIH =>
    refine ⟨holds.1, bodyIH _ holds.2 ?_⟩
    intro found store rest
    exact nextIH found.1 rest values
  | flush next ih => exact ⟨holds.1, ih holds.2 values⟩

/-- The precondition of a sequence is the precondition of its first part for the
precondition of its second. -/
theorem wp_bind {rest : α → Scoped κ β ε γ} :
    wp rules (program.bind rest) held post failed store ↔
      wp rules program held (fun value store => wp rules (rest value) held post failed store)
        failed store := by
  induction program generalizing held store with
  | pure value => exact Iff.rfl
  | fail error => exact Iff.rfl
  | reading key body next bodyIH nextIH =>
    simp only [bind, wp, nextIH]
  | writing key body next bodyIH nextIH =>
    simp only [bind, wp, nextIH]
  | flush next ih => simp only [bind, wp, ih]

/-- A sequence is proved from a specification of its first part. -/
theorem wp_seq {rest : α → Scoped κ β ε γ} {middle : α → (κ → β) → Prop}
    (first : wp rules program held middle failed store)
    (second : ∀ value store, middle value store → wp rules (rest value) held post failed store) :
    wp rules (program.bind rest) held post failed store :=
  wp_bind.mpr (wp_mono first second fun _ _ reached => reached)

/-- The rule of a reading scope. -/
theorem wp_read {key : κ} {body : β → Scoped κ β ε γ} :
    wp rules (read key body) held post failed store ↔
      rules.Admits held key ∧
        wp rules (body (store key)) (key :: held) post failed store :=
  Iff.rfl

/-- The rule of a writing scope. -/
theorem wp_write {key : κ} {body : β → Scoped κ β ε (γ × Option β)} :
    wp rules (write key body) held post failed store ↔
      rules.Admits held key ∧
        wp rules (body (store key)) (key :: held)
          (fun found store => post found.1 (put store key found.2)) failed store :=
  Iff.rfl

/-- The rule of a loop over a list: an invariant of the items done so far. -/
theorem wp_foldlM {ι σ : Type} {step : σ → ι → Scoped κ β ε σ} {items : List ι} {init : σ}
    {post : σ → (κ → β) → Prop} (invariant : List ι → σ → (κ → β) → Prop)
    (start : invariant [] init store)
    (each : ∀ done item rest state store, items = done ++ item :: rest →
      invariant done state store →
      wp rules (step state item) held (invariant (done ++ [item])) failed store)
    (finish : ∀ state store, invariant items state store → post state store) :
    wp rules (items.foldlM step init) held post failed store := by
  suffices loop : ∀ rest done state store, items = done ++ rest → invariant done state store →
      wp rules (rest.foldlM step state) held post failed store from
    loop items [] init store rfl start
  intro rest
  induction rest with
  | nil =>
    intro done state store whole holds
    rw [List.append_nil] at whole
    exact finish state store (whole ▸ holds)
  | cons item rest ih =>
    intro done state store whole holds
    rw [List.foldlM_cons]
    refine wp_seq (each done item rest state store whole holds) ?_
    intro next store holds
    exact ih (done ++ [item]) next store (by simpa using whole) holds

/-- The precondition holds exactly of the outcome on the plain store, once the guards are
left out of account. -/
theorem run_of_wp {post : α → (κ → β) → Prop} (holds : wp rules program held post failed store) :
    match program.run store with
    | .ok value store => post value store
    | .error error store => failed error store := by
  induction program generalizing held store with
  | pure value => exact holds
  | fail error => exact holds
  | reading key body next bodyIH nextIH =>
    have inner := bodyIH _ holds.2
    simp only [run]
    cases reached : (body (store key)).run store with
    | ok found store =>
      simp only [reached] at inner
      exact nextIH found inner
    | error error store =>
      simpa only [reached] using inner
  | writing key body next bodyIH nextIH =>
    have inner := bodyIH _ holds.2
    simp only [run]
    cases reached : (body (store key)).run store with
    | ok found store =>
      simp only [reached] at inner
      exact nextIH found.1 inner
    | error error store =>
      simpa only [reached] using inner
  | flush next ih => exact ih holds.2

/-- A program that must return, and only with one value, returns that value. -/
theorem run_eq_of_wp {post : α → (κ → β) → Prop}
    (holds : wp rules program held post (fun _ _ => False) store) :
    ∃ value final, program.run store = .ok value final ∧ post value final := by
  have outcome := run_of_wp holds
  cases reached : program.run store with
  | ok value final =>
    simp only [reached] at outcome
    exact ⟨value, final, rfl, outcome⟩
  | error error final => simp only [reached] at outcome

end Rules

/-! ## Facts that hold on any store -/

section Shape

variable {program : Scoped κ β ε α}

/-- Every value that a program returns satisfies `post`, whatever the cells hold. -/
def Yields : {α : Type} → Scoped κ β ε α → (α → Prop) → Prop
  | _, .pure value, post => post value
  | _, .fail _, _ => True
  | _, .reading _ body next, post =>
    ∀ content, Yields (body content) fun found => Yields (next found) post
  | _, .writing _ body next, post =>
    ∀ content, Yields (body content) fun found => Yields (next found.1) post
  | _, .flush next, post => Yields next post

variable {post : α → Prop} {rest : α → Scoped κ β ε γ} {error : ε} {key : κ}

/-- A weaker condition on the values. -/
theorem Yields.mono {weaker : α → Prop} (yields : program.Yields post)
    (values : ∀ value, post value → weaker value) : program.Yields weaker := by
  induction program with
  | pure value => exact values value yields
  | fail error => trivial
  | reading key body next bodyIH nextIH =>
    exact fun content => bodyIH content (yields content) fun found rest => nextIH found rest values
  | writing key body next bodyIH nextIH =>
    exact fun content =>
      bodyIH content (yields content) fun found rest => nextIH found.1 rest values
  | flush next ih => exact ih yields values

/-- The values of a sequence are those of its second part. -/
theorem yields_bind {post : γ → Prop} :
    (program.bind rest).Yields post ↔ program.Yields fun value => (rest value).Yields post := by
  induction program with
  | pure value => exact Iff.rfl
  | fail error => exact Iff.rfl
  | reading key body next bodyIH nextIH => simp only [bind, Yields, nextIH]
  | writing key body next bodyIH nextIH => simp only [bind, Yields, nextIH]
  | flush next ih => simp only [bind, Yields, ih]

/-- A condition on all values. -/
theorem yields_of_forall (values : ∀ value, post value) : program.Yields post := by
  induction program with
  | pure value => exact values value
  | fail error => trivial
  | reading key body next bodyIH nextIH =>
    exact fun content => bodyIH content fun found => nextIH found values
  | writing key body next bodyIH nextIH =>
    exact fun content => bodyIH content fun found => nextIH found.1 values
  | flush next ih => exact ih values

/-- Two conditions on the values. -/
theorem yields_and {left right : α → Prop} :
    (program.Yields fun value => left value ∧ right value) ↔
      program.Yields left ∧ program.Yields right := by
  induction program with
  | pure value => exact Iff.rfl
  | fail error => exact ⟨fun _ => ⟨trivial, trivial⟩, fun _ => trivial⟩
  | reading key body next bodyIH nextIH => simp only [Yields, nextIH, bodyIH, forall_and]
  | writing key body next bodyIH nextIH => simp only [Yields, nextIH, bodyIH, forall_and]
  | flush next ih => simp only [Yields, ih]

/-- A program does not fail with `error`, whatever the cells hold. -/
def Avoids (error : ε) : {α : Type} → Scoped κ β ε α → Prop
  | _, .pure _ => True
  | _, .fail found => found ≠ error
  | _, .reading _ body next => ∀ content, Avoids error (body content) ∧
      (body content).Yields fun found => Avoids error (next found)
  | _, .writing _ body next => ∀ content, Avoids error (body content) ∧
      (body content).Yields fun found => Avoids error (next found.1)
  | _, .flush next => Avoids error next

/-- The failures of a sequence are those of its parts. -/
theorem avoids_bind :
    (program.bind rest).Avoids error ↔
      program.Avoids error ∧ program.Yields fun value => (rest value).Avoids error := by
  induction program with
  | pure value => exact ⟨fun avoids => ⟨trivial, avoids⟩, And.right⟩
  | fail found => exact ⟨fun avoids => ⟨avoids, trivial⟩, And.left⟩
  | reading key body next bodyIH nextIH =>
    simp only [bind, Avoids, Yields, nextIH, yields_and, forall_and, and_assoc]
  | writing key body next bodyIH nextIH =>
    simp only [bind, Avoids, Yields, nextIH, yields_and, forall_and, and_assoc]
  | flush next ih => simp only [bind, Avoids, Yields, ih]

/-- A sequence of parts that avoid a failure. -/
theorem Avoids.bind (first : program.Avoids error) (second : ∀ value, (rest value).Avoids error) :
    (program.bind rest).Avoids error :=
  avoids_bind.mpr ⟨first, yields_of_forall second⟩

/-- A scope whose body avoids a failure. -/
theorem avoids_read {body : β → Scoped κ β ε α} (bodies : ∀ content, (body content).Avoids error) :
    (read key body).Avoids error :=
  fun content => ⟨bodies content, yields_of_forall fun _ => trivial⟩

/-- A scope that changes its cell, whose body avoids a failure. -/
theorem avoids_write {body : β → Scoped κ β ε (α × Option β)}
    (bodies : ∀ content, (body content).Avoids error) : (write key body).Avoids error :=
  fun content => ⟨bodies content, yields_of_forall fun _ => trivial⟩

/-- A loop whose rounds avoid a failure. -/
theorem avoids_foldlM {element : Type} {step : α → element → Scoped κ β ε α}
    (rounds : ∀ value next, (step value next).Avoids error) (elements : List element) (value : α) :
    (elements.foldlM step value).Avoids error := by
  induction elements generalizing value with
  | nil => trivial
  | cons next rest ih => exact (rounds value next).bind ih

/-- A program that changes no cell. -/
def ReadOnly : {α : Type} → Scoped κ β ε α → Prop
  | _, .pure _ => True
  | _, .fail _ => True
  | _, .reading _ body next =>
    (∀ content, ReadOnly (body content)) ∧ ∀ found, ReadOnly (next found)
  | _, .writing _ _ _ => False
  | _, .flush next => ReadOnly next

/-- A sequence changes nothing when its parts do not. -/
theorem ReadOnly.bind (first : program.ReadOnly) (second : ∀ value, (rest value).ReadOnly) :
    (program.bind rest).ReadOnly := by
  induction program with
  | pure value => exact second value
  | fail error => trivial
  | reading key body next bodyIH nextIH =>
    exact ⟨first.1, fun found => nextIH found (first.2 found) second⟩
  | writing key body next bodyIH nextIH => exact first.elim
  | flush next ih => exact ih first second

/-- A scope whose body changes nothing. -/
theorem readOnly_read {body : β → Scoped κ β ε α} (bodies : ∀ content, (body content).ReadOnly) :
    (read key body).ReadOnly :=
  ⟨bodies, fun _ => trivial⟩

/-- A loop whose rounds change nothing. -/
theorem readOnly_foldlM {element : Type} {step : α → element → Scoped κ β ε α}
    (rounds : ∀ value next, (step value next).ReadOnly) (elements : List element) (value : α) :
    (elements.foldlM step value).ReadOnly := by
  induction elements generalizing value with
  | nil => trivial
  | cons next rest ih => exact (rounds value next).bind ih

/-- On this store a program changes nothing, and its outcome satisfies `post` with its value or
`failed` with its error. It owes nothing to its guards. -/
def Reads (store : κ → β) : {α : Type} → Scoped κ β ε α → (α → Prop) → (ε → Prop) → Prop
  | _, .pure value, post, _ => post value
  | _, .fail error, _, failed => failed error
  | _, .reading key body next, post, failed =>
    Reads store (body (store key)) (fun found => Reads store (next found) post failed) failed
  | _, .writing _ _ _, _, _ => False
  | _, .flush next, post, failed => Reads store next post failed

/-- Weaker conditions on the outcome. -/
theorem Reads.mono {store : κ → β} {weaker : α → Prop} {failed laxer : ε → Prop}
    (reads : program.Reads store post failed) (values : ∀ value, post value → weaker value)
    (errors : ∀ error, failed error → laxer error) : program.Reads store weaker laxer := by
  induction program with
  | pure value => exact values value reads
  | fail error => exact errors error reads
  | reading key body next bodyIH nextIH =>
    exact bodyIH _ reads fun found rest => nextIH found rest values
  | writing key body next bodyIH nextIH => exact reads.elim
  | flush next ih => exact ih reads values

/-- The values of a sequence are those of its second part. -/
theorem reads_bind {store : κ → β} {post : γ → Prop} {failed : ε → Prop} :
    (program.bind rest).Reads store post failed ↔
      program.Reads store (fun value => (rest value).Reads store post failed) failed := by
  induction program with
  | pure value => exact Iff.rfl
  | fail error => exact Iff.rfl
  | reading key body next bodyIH nextIH => simp only [bind, Reads, nextIH]
  | writing key body next bodyIH nextIH => exact Iff.rfl
  | flush next ih => simp only [bind, Reads, ih]

/-- A program that changes nothing has the outcome of its run on the store. -/
theorem ReadOnly.reads [DecidableEq κ] (readOnly : program.ReadOnly) (yields : program.Yields post)
    (store : κ → β) :
    program.Reads store (fun value => program.run store = .ok value store ∧ post value)
      fun error => program.run store = .error error store := by
  induction program with
  | pure value => exact ⟨rfl, yields⟩
  | fail error => exact rfl
  | reading key body next bodyIH nextIH =>
    refine (bodyIH (store key) (readOnly.1 _) (yields _)).mono ?_ ?_
    · rintro found ⟨ran, rest⟩
      simp only [run, ran]
      exact nextIH found (readOnly.2 found) rest
    · intro error ran
      simp only [run, ran]
  | writing key body next bodyIH nextIH => exact readOnly.elim
  | flush next ih => exact ih readOnly yields

/-- A program settles when nothing changes between its last flush and its return. -/
def Settles : {α : Type} → Scoped κ β ε α → Prop
  | _, .pure _ => False
  | _, .fail _ => True
  | _, .reading _ _ next => ∀ found, Settles (next found)
  | _, .writing _ _ next => ∀ found, Settles (next found)
  | _, .flush next => (∃ value, next = .pure value) ∨ Settles next

/-- A sequence settles when its second part does. -/
theorem settles_bind (settles : ∀ value, (rest value).Settles) : (program.bind rest).Settles := by
  induction program with
  | pure value => exact settles value
  | fail error => trivial
  | reading key body next bodyIH nextIH => exact fun found => nextIH found settles
  | writing key body next bodyIH nextIH => exact fun found => nextIH found settles
  | flush next ih => exact .inr (ih settles)

end Shape

end Scoped

end Canyon.Lib
