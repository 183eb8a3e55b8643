import PropertyRecord.Proofs.Session.User
import PropertyRecord.Proofs.Store.Shared

/-!
# Users do not get in each other's way

Users who share a store meet in nothing but the store. A turn changes it only by storing a record
under the name of the one whose turn it is, so what is found under a name is what was last stored
under it; and a turn depends on no more of it than the record with that name, except that a new
record needs a place.

Main statements: `Holds.step_eq` for a turn, `Holds.runFrom`, `AgreeBut.run` and
`Holds.answersTo_eq` for runs, and `isolated`.
-/

namespace PropertyRecord

/-! ## A store of one's own -/

namespace MemoryStore

variable {recordLimit dataLimit : Nat}

/-- The store without any record but the one with a name. -/
def only (store : MemoryStore recordLimit dataLimit) (name : String) :
    MemoryStore recordLimit dataLimit :=
  ⟨((store.get? name).map (NamedRecord.mk name)).toList⟩

theorem get?_only (store : MemoryStore recordLimit dataLimit) (name : String) :
    (store.only name).get? name = store.get? name := by
  rw [get?, only]
  cases store.get? name with
  | none => rfl
  | some data => simp

theorem only_put_self (store : MemoryStore recordLimit dataLimit) (name : String) (data : Bytes) :
    (store.put ⟨name, data⟩).only name = (store.only name).put ⟨name, data⟩ := by
  have stored := get?_put_self store ⟨name, data⟩
  simp only at stored
  rw [only, stored, only, put]
  cases store.get? name with
  | none => rfl
  | some old => simp [place]

theorem only_put_of_ne (store : MemoryStore recordLimit dataLimit) {record : NamedRecord}
    {name : String} (other : name ≠ record.name) :
    (store.put record).only name = store.only name := by
  rw [only, get?_put_of_ne store other, only]

/-- The data of the last of some records that has a name. -/
def lastUnder (name : String) (records : List NamedRecord) : Option Bytes :=
  (records.reverse.find? fun record => record.name == name).map NamedRecord.data

/-- Of records that are put into a store, the last one with a name is found under it. -/
theorem get?_foldl_put (store : MemoryStore recordLimit dataLimit) (records : List NamedRecord)
    (name : String) :
    (records.foldl put store).get? name = (lastUnder name records).or (store.get? name) := by
  induction records generalizing store with
  | nil => rfl
  | cons record records ih =>
    rw [List.foldl_cons, ih, lastUnder, lastUnder, List.reverse_cons, List.find?_append]
    cases records.reverse.find? fun record => record.name == name with
    | some last => rfl
    | none =>
      by_cases same : record.name = name
      · subst same
        rw [get?_put_self]
        simp
      · rw [get?_put_of_ne store (Ne.symm same)]
        simp [same]

end MemoryStore

/-! ## A user of a shared store -/

section

variable {recordLimit dataLimit : Nat} (name : RecordName)
  (store : MemoryStore recordLimit dataLimit)

/-- A user of a record does not see whether there are other records. -/
theorem alike_only : Alike name (SharedStore.free store) (store.only name.text) := by
  intro out
  refine ⟨store.read name.text out, rfl, ?_⟩
  have same : (store.only name.text).read name.text out = store.read name.text out := by
    rw [MemoryStore.read, MemoryStore.get?_only, MemoryStore.read]
  exact congrArg (·, store.only name.text) same

theorem Record.store_write (data : Bytes) :
    (write name store data).2
      = if (write name store data).1.isOk then store.put ⟨name.text, data⟩ else store := by
  rw [write_eq]
  split <;> rfl

/-- A write over a store in memory is refused for lack of a place only: there is no record with the
name, and no place for another one. -/
def MemoryStore.lacksPlace (data : Bytes) : Bool :=
  data.length ≤ min dataLimit maxRecordSize && !store.contains name.text
    && recordLimit ≤ store.count

/-- Unless a place is missing, a write does to a store what it does to the record alone. -/
theorem Record.write_only {data : Bytes} (place : store.lacksPlace name data = false) :
    write name (store.only name.text) data
      = ((write name store data).1, (write name store data).2.only name.text) := by
  have contained : (store.only name.text).contains name.text = store.contains name.text := by
    rw [MemoryStore.contains_eq_isSome_get?, MemoryStore.get?_only,
      MemoryStore.contains_eq_isSome_get?]
  have stored := store.only_put_self name.text data
  rw [write_eq, write_eq, contained]
  by_cases small : data.length ≤ min dataLimit maxRecordSize
  · cases there : store.contains name.text with
    | true =>
      rw [if_pos ⟨small, .inl rfl⟩, if_pos ⟨small, .inl rfl⟩, ← stored]
    | false =>
      have room : store.count < recordLimit := by
        simpa [MemoryStore.lacksPlace, small, there] using place
      have alone : (store.only name.text).count = 0 := by
        rw [MemoryStore.contains_eq_isSome_get?, Option.isSome_eq_false_iff,
          Option.isNone_iff_eq_none] at there
        rw [MemoryStore.count, MemoryStore.only, there]
        rfl
      have roomAlone : (store.only name.text).count < recordLimit := by
        rw [alone]
        exact Nat.zero_lt_of_lt room
      rw [if_pos ⟨small, .inr roomAlone⟩, if_pos ⟨small, .inr room⟩, ← stored]
  · rw [if_neg fun fits => small fits.1, if_neg fun fits => small fits.1]

end

namespace Users

variable {ι : Type} [DecidableEq ι] {recordLimit dataLimit : Nat}

/-- Users who share a store in memory. -/
abbrev Shared (ι : Type) (recordLimit dataLimit : Nat) : Type :=
  Users ι (SharedStore (MemoryStore recordLimit dataLimit))

variable (names : ι → RecordName)

/-- The bytes that the call of a turn hands to the store. -/
def offered? (moment : Moment (Shared ι recordLimit dataLimit) (Turn ι)) : Option Bytes :=
  User.offered? (moment.state.editors moment.call.user) moment.call.call

/-- The record that the call of a turn stores. -/
def stored? (moment : Moment (Shared ι recordLimit dataLimit) (Turn ι)) : Option NamedRecord :=
  if (moment.state.step names moment.call).1.stored then
    (offered? moment).map (NamedRecord.mk (names moment.call.user).text)
  else none

/-- Whether the call of a turn is refused because the store has no place for another record. -/
def lacksPlace (moment : Moment (Shared ι recordLimit dataLimit) (Turn ι)) : Bool :=
  match moment.state.store, offered? moment with
  | .free store, some data => store.lacksPlace (names moment.call.user) data
  | _, _ => false

/-- The records that a run stores, in the order in which it does. -/
def stores (s : Shared ι recordLimit dataLimit) (turns : List (Turn ι)) : List NamedRecord :=
  (moments (step names) s turns).filterMap (stored? names)

/-- The answers that one of the users gets in a run. -/
def answersTo (user : ι) (s : Shared ι recordLimit dataLimit) (turns : List (Turn ι)) :
    List User.Answer :=
  ((moments (step names) s turns).filter fun moment => moment.call.user = user).map
    fun moment => (moment.state.step names moment.call).1

/-- The calls that one of the users makes. -/
def callsOf (user : ι) (turns : List (Turn ι)) : List User.Call :=
  (turns.filter fun turn => turn.user = user).map Turn.call

/-- A store that nobody holds, and editors that are coherent. -/
structure Holds (s : Shared ι recordLimit dataLimit) (store : MemoryStore recordLimit dataLimit) :
    Prop where
  store : s.store = .free store
  coherent : ∀ user, (s.as user).Coherent

variable {names} {s : Shared ι recordLimit dataLimit} {store : MemoryStore recordLimit dataLimit}

/-! ## One turn -/

theorem editors_step_of_ne {turn : Turn ι} {user : ι} (other : user ≠ turn.user) :
    (s.step names turn).2.editors user = s.editors user := if_neg other

/-- The state after a turn of one user. -/
theorem step_eq_of_as {turn : Turn ι} {answer : User.Answer}
    {next : SharedStore (MemoryStore recordLimit dataLimit)} {left : Option Editor}
    (ran : User.step (names turn.user) (s.as turn.user) turn.call = (answer, ⟨next, left⟩)) :
    s.step names turn
      = (answer, ⟨next, fun user => if user = turn.user then left else s.editors user⟩) := by
  rw [Users.step, ran]

theorem stored?_of_quiet {turn : Turn ι} (quiet : offered? ⟨s, turn⟩ = none) :
    stored? names ⟨s, turn⟩ = none := by
  rw [stored?, quiet, Option.map_none, ite_self]

theorem stored?_of_offered {turn : Turn ι} {data : Bytes}
    (offered : offered? ⟨s, turn⟩ = some data) :
    stored? names ⟨s, turn⟩
      = if (s.step names turn).1.stored then some ⟨(names turn.user).text, data⟩ else none := by
  rw [stored?, offered, Option.map_some]

/-- What a turn comes to. The record that it stores is put into the store, and unless it lacked a
place, its user is answered like one whose store has no other record. -/
theorem Holds.step_eq (holds : s.Holds store) (turn : Turn ι) :
    let name := names turn.user
    let after := (stored? names ⟨s, turn⟩).toList.foldl MemoryStore.put store
    ∃ answer left,
      s.step names turn
          = (answer, ⟨.free after, fun user => if user = turn.user then left else s.editors user⟩)
        ∧ (lacksPlace names ⟨s, turn⟩ = false →
            User.step name ⟨store.only name.text, s.editors turn.user⟩ turn.call
              = (answer, ⟨after.only name.text, left⟩)) := by
  intro name after
  have seen : s.as turn.user = ⟨.free store, s.editors turn.user⟩ := by rw [Users.as, holds.store]
  cases offered : offered? ⟨s, turn⟩ with
  | none =>
    have same : after = store := by simp only [after, stored?_of_quiet offered]; rfl
    rcases User.step_of_quiet (alike_only name store) offered with ⟨answer, left, shared, own⟩
    rw [← seen] at shared
    rw [same]
    exact ⟨answer, left, step_eq_of_as shared, fun _ => own⟩
  | some data =>
    have coherent := seen ▸ holds.coherent turn.user
    have shared := Record.write_free name store data
    -- The store after the turn is the one that the write leaves.
    have same {answer : User.Answer} (ran : (s.step names turn).1 = answer)
        (stored : answer.stored = (Record.write name store data).1.isOk) :
        after = (Record.write name store data).2 := by
      rw [Record.store_write, ← stored, ← ran]
      simp only [after, stored?_of_offered offered]
      split <;> rfl
    by_cases place : lacksPlace names ⟨s, turn⟩ = false
    · have room : store.lacksPlace name data = false := by
        simpa only [lacksPlace, holds.store, offered] using place
      rcases User.step_of_offered coherent offered shared (Record.write_only name store room) with
        ⟨answer, left, ran, own, stored⟩
      rw [← seen] at ran
      have step := step_eq_of_as ran
      rw [same (congrArg Prod.fst step) stored]
      exact ⟨answer, left, step, fun _ => own⟩
    · rcases User.step_of_offered coherent offered shared shared with
        ⟨answer, left, ran, -, stored⟩
      rw [← seen] at ran
      have step := step_eq_of_as ran
      rw [same (congrArg Prod.fst step) stored]
      exact ⟨answer, left, step, fun room => absurd room place⟩

/-- A turn keeps the editors coherent, and puts the record that it stores into the store. -/
theorem Holds.step (names : ι → RecordName) (holds : s.Holds store) (turn : Turn ι) :
    (s.step names turn).2.Holds
      ((stored? names ⟨s, turn⟩).toList.foldl MemoryStore.put store) := by
  rcases holds.step_eq turn with ⟨answer, left, ran, -⟩
  constructor
  case store => rw [ran]
  case coherent =>
    intro user ed opened
    by_cases same : user = turn.user
    · subst same
      refine (holds.coherent turn.user).step (names turn.user) turn.call ed ?_
      rw [← opened]
      exact (if_pos rfl).symm
    · refine holds.coherent user ed ?_
      rw [← opened]
      exact (if_neg same).symm

/-! ## Runs -/

theorem stores_cons (s : Shared ι recordLimit dataLimit) (turn : Turn ι) (turns : List (Turn ι)) :
    stores names s (turn :: turns)
      = (stored? names ⟨s, turn⟩).toList ++ stores names (s.step names turn).2 turns := by
  rw [stores, moments, List.filterMap_cons]
  cases stored? names ⟨s, turn⟩ <;> rfl

/-- A run puts the records that it stores into the store, one after the other. -/
theorem Holds.runFrom (names : ι → RecordName) (holds : s.Holds store) (turns : List (Turn ι)) :
    (runFrom (Users.step names) s turns).Holds
      ((stores names s turns).foldl MemoryStore.put store) := by
  induction turns generalizing s store with
  | nil => exact holds
  | cons turn turns ih =>
    rw [stores_cons, List.foldl_append, runFrom_cons]
    exact ih (holds.step names turn)

theorem answersTo_cons_self {turn : Turn ι} {user : ι} (own : turn.user = user)
    (turns : List (Turn ι)) :
    answersTo names user s (turn :: turns)
      = (s.step names turn).1 :: answersTo names user (s.step names turn).2 turns := by
  rw [answersTo, moments, List.filter_cons_of_pos (by simpa using own)]
  rfl

theorem answersTo_cons_of_ne {turn : Turn ι} {user : ι} (other : turn.user ≠ user)
    (turns : List (Turn ι)) :
    answersTo names user s (turn :: turns)
      = answersTo names user (s.step names turn).2 turns := by
  rw [answersTo, moments, List.filter_cons_of_neg (by simpa using other)]
  rfl

/-- The answer to the last of some turns. -/
theorem answersTo_concat (user : ι) (call : User.Call) (turns : List (Turn ι)) :
    answersTo names user s (turns ++ [⟨user, call⟩])
      = answersTo names user s turns
        ++ [((runFrom (step names) s turns).step names ⟨user, call⟩).1] := by
  rw [answersTo, moments_append, List.filter_append, List.map_append,
    moments, List.filter_cons_of_pos (by simp)]
  rfl

theorem step_getUInt64 (user : ι) (key : String) (default : UInt64) :
    (s.step names ⟨user, .record (.getUInt64 key default) rfl⟩).1
      = .replied (.integer (Record.getUInt64 (names user) s.store key default).1.toNat) := rfl

/-! ## Leaving a user out -/

/-- Two states that differ in the editor of one of the users, if at all. -/
structure AgreeBut (user : ι) (s t : Shared ι recordLimit dataLimit) : Prop where
  store : s.store = t.store
  editors : ∀ other, other ≠ user → s.editors other = t.editors other

/-- A turn of the user in whom two states differ, if it stores nothing. -/
theorem AgreeBut.step_left {user : ι} {t : Shared ι recordLimit dataLimit} (holds : s.Holds store)
    (agree : AgreeBut user s t) {turn : Turn ι} (same : turn.user = user)
    (quiet : stored? names ⟨s, turn⟩ = none) : AgreeBut user (s.step names turn).2 t := by
  have kept := (holds.step names turn).store
  rw [quiet] at kept
  constructor
  case store => rw [kept, ← agree.store, holds.store]; rfl
  case editors =>
    intro other apart
    rw [editors_step_of_ne (same ▸ apart), agree.editors other apart]

/-- A turn of another user. -/
theorem AgreeBut.step {user : ι} {t : Shared ι recordLimit dataLimit} (names : ι → RecordName)
    (agree : AgreeBut user s t) {turn : Turn ι} (apart : turn.user ≠ user) :
    (s.step names turn).1 = (t.step names turn).1
      ∧ AgreeBut user (s.step names turn).2 (t.step names turn).2 := by
  have seen : s.as turn.user = t.as turn.user := by
    rw [Users.as, agree.store, agree.editors turn.user apart, Users.as]
  rw [Users.step, Users.step, seen]
  refine ⟨rfl, rfl, fun other away => ?_⟩
  simp only
  split
  next => rfl
  next => exact agree.editors other away

/-- A user who stores nothing is not noticed by the others. -/
theorem AgreeBut.run {user : ι} {t : Shared ι recordLimit dataLimit} (holds : s.Holds store)
    (agree : AgreeBut user s t) {turns : List (Turn ι)}
    (quiet : ∀ moment ∈ moments (Users.step names) s turns,
      moment.call.user = user → stored? names moment = none) :
    let others := turns.filter fun turn => turn.user ≠ user
    (runFrom (Users.step names) s turns).store = (runFrom (Users.step names) t others).store
      ∧ ∀ other, other ≠ user →
          answersTo names other s turns = answersTo names other t others := by
  intro others
  induction turns generalizing s t store with
  | nil => exact ⟨agree.store, fun _ _ => rfl⟩
  | cons turn turns ih =>
    have now := quiet ⟨s, turn⟩ List.mem_cons_self
    have later moment member := quiet moment (List.mem_cons_of_mem _ member)
    by_cases same : turn.user = user
    · have gone : (turn :: turns).filter (fun turn => turn.user ≠ user)
          = turns.filter fun turn => turn.user ≠ user :=
        List.filter_cons_of_neg (by simpa using same)
      rcases ih (holds.step names turn) (agree.step_left holds same (now same)) later with
        ⟨store, answers⟩
      refine ⟨?_, fun other apart => ?_⟩
      · simp only [others, gone]
        exact store
      · rw [answersTo_cons_of_ne (same ▸ apart.symm)]
        simp only [others, gone]
        exact answers other apart
    · have stays : (turn :: turns).filter (fun turn => turn.user ≠ user)
          = turn :: turns.filter fun turn => turn.user ≠ user :=
        List.filter_cons_of_pos (by simpa using same)
      rcases agree.step names same with ⟨answer, agrees⟩
      rcases ih (holds.step names turn) agrees later with ⟨store, answers⟩
      refine ⟨?_, fun other apart => ?_⟩
      · simp only [others, stays]
        exact store
      · simp only [others, stays]
        by_cases own : turn.user = other
        · rw [answersTo_cons_self own, answersTo_cons_self own, answer, answers other apart]
        · rw [answersTo_cons_of_ne own, answersTo_cons_of_ne own, answers other apart]

/-! ## Leaving the others out -/

theorem name_of_stored? {moment : Moment (Shared ι recordLimit dataLimit) (Turn ι)}
    {record : NamedRecord} (stored : stored? names moment = some record) :
    record.name = (names moment.call.user).text := by
  rw [stored?] at stored
  split at stored
  next =>
    rcases Option.map_eq_some_iff.1 stored with ⟨data, -, rfl⟩
    rfl
  next => cases stored

theorem callsOf_cons_self {turn : Turn ι} {user : ι} (own : turn.user = user)
    (turns : List (Turn ι)) : callsOf user (turn :: turns) = turn.call :: callsOf user turns := by
  rw [callsOf, List.filter_cons_of_pos (by simpa using own)]
  rfl

theorem callsOf_cons_of_ne {turn : Turn ι} {user : ι} (other : turn.user ≠ user)
    (turns : List (Turn ι)) : callsOf user (turn :: turns) = callsOf user turns := by
  rw [callsOf, List.filter_cons_of_neg (by simpa using other)]
  rfl

/-- A user whose record is nobody else's does not notice the others. -/
theorem Holds.answersTo_eq {user : ι}
    (sole : ∀ other, other ≠ user → (names other).text ≠ (names user).text) (holds : s.Holds store)
    {turns : List (Turn ι)}
    (room : ∀ moment ∈ moments (Users.step names) s turns,
      moment.call.user = user → lacksPlace names moment = false) :
    answersTo names user s turns
      = answers (User.step (names user)) ⟨store.only (names user).text, s.editors user⟩
          (callsOf user turns) := by
  induction turns generalizing s store with
  | nil => rfl
  | cons turn turns ih =>
    have now := room ⟨s, turn⟩ List.mem_cons_self
    have later := ih (holds.step names turn) fun moment member =>
      room moment (List.mem_cons_of_mem _ member)
    by_cases own : turn.user = user
    · subst own
      rcases holds.step_eq turn with ⟨answer, left, shared, alone⟩
      have editor : (s.step names turn).2.editors turn.user = left := by
        rw [shared]
        exact if_pos rfl
      rw [answersTo_cons_self rfl, callsOf_cons_self rfl, later, editor, shared]
      rw [answers, answers, moments, List.map_cons, alone (now rfl)]
    · have untouched : ((stored? names ⟨s, turn⟩).toList.foldl MemoryStore.put store).only
          (names user).text = store.only (names user).text := by
        cases stored : stored? names ⟨s, turn⟩ with
        | none => rfl
        | some record =>
          refine MemoryStore.only_put_of_ne store ?_
          rw [name_of_stored? stored]
          exact (sole turn.user own).symm
      rw [answersTo_cons_of_ne own, callsOf_cons_of_ne own, later, untouched,
        editors_step_of_ne (Ne.symm own)]

omit [DecidableEq ι] in
theorem holds_ofStore (start : MemoryStore recordLimit dataLimit) :
    (ofStore (.free start) : Shared ι recordLimit dataLimit).Holds start where
  store := rfl
  coherent _ _ opened := by cases opened

/-- Users who share a store are isolated by record. Whatever turns any number of them take, with
whatever records they have:

* under every name is what was last stored under it, each time the bytes of one write or the
  canonical record of one editor, and the store is free again;
* from then on, a user is not noticed by the others as long as it stores nothing, whatever editor
  it has open: they are answered as if it had made no calls;
* a user whose record is nobody else's is answered as if it alone had made calls, on a store with no
  other record, unless the store had no place for a record when it was to store one. -/
theorem isolated (names : ι → RecordName) (start : MemoryStore recordLimit dataLimit)
    (turns : List (Turn ι)) :
    let first : Shared ι recordLimit dataLimit := ofStore (.free start)
    let s := runFrom (step names) first turns
    (∃ store, s.store = .free store ∧ ∀ name,
        store.get? name
          = (MemoryStore.lastUnder name (stores names first turns)).or (start.get? name))
      ∧ (∀ user later,
          (∀ moment ∈ moments (step names) s later,
            moment.call.user = user → stored? names moment = none) →
          let others := later.filter fun turn => turn.user ≠ user
          (runFrom (step names) s later).store = (runFrom (step names) s others).store
            ∧ ∀ other, other ≠ user →
                answersTo names other s later = answersTo names other s others)
      ∧ ∀ user, (∀ other, other ≠ user → (names other).text ≠ (names user).text) →
          (∀ moment ∈ moments (step names) first turns,
            moment.call.user = user → lacksPlace names moment = false) →
          answersTo names user first turns
            = answers (User.step (names user)) ⟨start.only (names user).text, none⟩
                (callsOf user turns) := by
  intro first s
  have holds := (holds_ofStore start).runFrom names turns
  refine ⟨⟨_, holds.store, fun name => start.get?_foldl_put _ name⟩, ?_, ?_⟩
  · intro user later quiet
    exact AgreeBut.run holds ⟨rfl, fun _ _ => rfl⟩ quiet
  · intro user sole room
    exact Holds.answersTo_eq sole (holds_ofStore start) room

/-- Two users have an editor open at the same time, one of them over a record that is there. The
first to commit does not see that the other one has come and gone: it is answered as if alone, and
finds the number that it has set itself. -/
theorem isolated_interleaved :
    let names : Bool → RecordName := fun user =>
      if user then ⟨"b", by decide, by decide⟩ else ⟨"a", by decide, by decide⟩
    let start : MemoryStore 2 64 := MemoryStore.empty.put ⟨"b", [0xa1, 0x61, 0x6d, 0x07]⟩
    let first : Shared Bool 2 64 := ofStore (.free start)
    let turns : List (Turn Bool) :=
      [⟨false, .edit (List.replicate 32 0)⟩, ⟨true, .edit (List.replicate 32 0)⟩,
        ⟨false, .change (.set ⟨"n", .uint 1⟩)⟩, ⟨true, .change (.set ⟨"n", .uint 2⟩)⟩,
        ⟨true, .commit⟩, ⟨false, .commit⟩, ⟨false, .record (.getUInt64 "n" 0) rfl⟩]
    let opened := runFrom (step names) first (turns.take 2)
    (opened.editors true).map Editor.properties = some [⟨"m", .uint 7⟩]
      ∧ stores names first turns
        = [⟨"b", [0xa2, 0x61, 0x6d, 0x07, 0x61, 0x6e, 0x02]⟩, ⟨"a", [0xa1, 0x61, 0x6e, 0x01]⟩]
      ∧ answersTo names false first turns
        = answers (User.step (names false)) ⟨start.only "a", none⟩ (callsOf false turns)
      ∧ (answersTo names false first turns).getLast? = some (.replied (.integer 1)) := by
  intro names start first turns opened
  have sole : ∀ other, other ≠ false → (names other).text ≠ (names false).text := by decide
  have room : ∀ moment ∈ moments (step names) first turns,
      moment.call.user = false → lacksPlace names moment = false := by decide +kernel
  have alone := (isolated names start turns).2.2 false sole room
  refine ⟨by decide +kernel, by decide +kernel, alone, ?_⟩
  have found : (Record.getUInt64 (names false) (runFrom (step names) first (turns.take 6)).store
      "n" 0).1 = 1 := by decide +kernel
  have last : answersTo names false first
      (turns.take 6 ++ [⟨false, .record (.getUInt64 "n" 0) rfl⟩]) = _ := answersTo_concat false _ _
  have split : turns = turns.take 6 ++ [⟨false, .record (.getUInt64 "n" 0) rfl⟩] := rfl
  rw [split, last, List.getLast?_concat, step_getUInt64, found]
  rfl

end Users

end PropertyRecord
