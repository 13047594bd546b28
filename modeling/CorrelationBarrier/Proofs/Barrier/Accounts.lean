import CorrelationBarrier.Proofs.Barrier.Content
import CorrelationBarrier.Proofs.Barrier.Ledger

/-!
# The accounts of a barrier

What the counters of a barrier stand for. A thread raises a counter some steps after it has done what the counter is for,
and reports it at yet another place; what it still owes is a matter of its progress alone.

* `Happening.earned?` — what an occurrence has to be counted for; `Happening.raised?` and `Happening.reported?` — the
  counter that it raises, and the event that it reports;
* `Progress.uncounted?`, `Progress.untold?` — what an operation has earned and has not counted or reported yet;
* `Progress.Apt` — what an operation is about to report is what its section came to;
* `Course.accounted` — in every state a thread has counted and reported what it has earned, up to what it still owes;
* `Course.read_stats`, `Course.events`, `Course.groups_created` — the counters, the journal and the groups, as the chronicle
  shows them;
* `sum_countP_filter` — what is counted thread by thread, or key by key, is counted altogether;
* `Course.settled` — once all threads have answered nothing is owed, and so `accounts_balance`.
-/

namespace CorrelationBarrier

variable {K M : Type}

/-! ## what is counted and what is reported -/

/-- The counter that an event goes with. -/
def Event.counter : Event K M → Counter
  | .accepted _ _ => .accepted
  | .released _ _ => .released
  | .drained _ => .groupsRemoved
  | .staleKey _ => .staleKeys

/-- The value of a counter. -/
def Stats.read (s : Stats) : Counter → UInt64
  | .accepted => s.accepted
  | .released => s.released
  | .groupsRemoved => s.groupsRemoved
  | .staleKeys => s.staleKeys

theorem Stats.read_bump (s : Stats) (c c' : Counter) :
    (s.bump c).read c' = s.read c' + UInt64.ofNat ([c].count c') := by
  cases c <;> cases c' <;> simp [bump, read]

/-- Whether a counter is raised for what an operation answers. -/
def Counter.isCredit : Counter → Bool
  | .accepted | .released => true
  | _ => false

/-- The counter of what an answer says to have happened: a message was accepted, or handed out. -/
def Answer.credit? : Answer K M → Option Counter
  | .accepted (.ok ()) => some .accepted
  | .pulled (.ok (some _)) => some .released
  | _ => none

namespace Happening

/-- The counter that an occurrence raises. -/
def raised? (e : Occurrence K M) : Option Counter :=
  match e.deed with
  | .called (.count c) _ => some c
  | _ => none

/-- The event that an occurrence reports. -/
def reported? (e : Occurrence K M) : Option (Event K M) :=
  match e.deed with
  | .called (.report event) _ => some event
  | _ => none

variable [DecidableEq K] [BEq M]

/-- What an occurrence in the operation `op` has to be counted for: a message goes into the store or is taken out of the
unmarked ones, a group is dropped, or the look-up of a pull finds no group. -/
def earned? (op : Operation K M) (e : Occurrence K M) : Option Counter :=
  match e.deed with
  | .called (.add _ _) (.ok ()) => some .accepted
  | .called (.mark k m) (.ok ()) => (e.data.store.finds? k m).map fun _ => .released
  | .called (.remove k m) (.ok ()) => (e.data.store.finds? k m).map fun _ => .released
  | .called (.dropGroup k) (.ok ()) => (e.data.store.group k).map fun _ => .groupsRemoved
  | .called (.group _) (.ok none) =>
    match op with
    | .pull _ => some .staleKeys
    | .accept _ => none
  | _ => none

/-- Whether an occurrence makes a group where there was none. -/
def creates (e : Occurrence K M) : Bool :=
  match e.deed with
  | .called (.add k _) (.ok ()) => (e.data.store.group k).isNone
  | _ => false

/-- Whether an occurrence drops a group. -/
def drops (e : Occurrence K M) : Bool :=
  match e.deed with
  | .called (.dropGroup k) (.ok ()) => (e.data.store.group k).isSome
  | _ => false

end Happening

/-! ## what an operation owes -/

namespace Progress

/-- The counter that an operation still has to raise for what it has done. -/
def uncounted? : Progress K M → Option Counter
  | .telling _ _ u _ | .vacant _ u | .forgetting _ u | .settled _ u _ | .left u => u.counter?
  | _ => none

/-- The counter that goes with the event which an operation still has to report for what it has done. -/
def untold? : Progress K M → Option Counter
  | .telling _ event _ _ => some event.counter
  | .vacant _ (.visit (.ok .drained)) | .forgetting _ (.visit (.ok .drained)) => some .groupsRemoved
  | .settled _ (.intake (.ok ())) _ | .left (.intake (.ok ())) | .counted => some .accepted
  | _ => none

/-- The counter that an operation has raised for what it is to answer. -/
def credit? : Progress K M → Option Counter
  | .counted => some .accepted
  | .finished a => a.credit?
  | _ => none

/-- An operation looks up a refused key only to accept, reports what its section came to, and has nothing accepted where it
is about to forget a key. -/
def Apt (op : Operation K M) : Progress K M → Prop
  | .refused _ _ => ∃ m, op = .accept m
  | .telling _ event u fate =>
    ∃ v, u = .visit (.ok v) ∧ u.counter? = some event.counter ∧ (fate = .missing → v = .stale)
  | .vacant _ u | .forgetting _ u => u ≠ .intake (.ok ())
  | _ => True

variable {rules : Rules K M} {policy : TokenPolicy} {op : Operation K M} {φ : Progress K M}

/-- A call leads to an apt phase again. -/
theorem Apt.afterCall {c : Request K M} (apt : φ.Apt op) (hc : φ.AllowsCall rules op c) (r : c.Reply) :
    (φ.afterCall rules policy c r).Apt op := by
  cases hc with
  | @add h m accepts =>
    show (afterAdd policy h r).Apt op
    rcases r with (e | text) | ⟨⟩
    · cases policy with
      | validated => exact ⟨m, accepts⟩
      | tolerant => trivial
    · trivial
    · trivial
  | @group h =>
    show (afterGroup h r).Apt op
    rcases r with f | (_ | g)
    · trivial
    · exact ⟨.stale, rfl, rfl, fun _ => rfl⟩
    · trivial
  | @lookUp h e =>
    show (afterLookup h e r).Apt op
    rcases r with (f | text) | (_ | g)
    · trivial
    · trivial
    · exact nofun
    · trivial
  | @clock h g =>
    show (afterClock rules h g r).Apt op
    unfold afterClock
    split <;> trivial
  | @mark h g now m | @remove h g now m =>
    show (afterHandOut h m r).Apt op
    rcases r with f | ⟨⟩
    · trivial
    · exact ⟨.released m, rfl, rfl, nofun⟩
  | @dropGroup h =>
    show (afterDrop h r).Apt op
    rcases r with f | ⟨⟩
    · trivial
    · exact nofun
  | @report h event u fate =>
    show (afterReport policy h u fate).Apt op
    obtain ⟨v, rfl, -, -⟩ := apt
    unfold afterReport
    split
    · exact nofun
    · trivial
  | @count u =>
    show (afterCount u).Apt op
    unfold afterCount
    split <;> trivial
  | announce => trivial

/-- So does every deed. -/
theorem Apt.after {d : Deed K (Request.interface K M)} (apt : φ.Apt op) (allowed : φ.Allows rules op d) :
    (φ.after rules policy d).Apt op := by
  cases allowed with
  | called hc =>
    rw [after_called]
    exact apt.afterCall hc _
  | @closed h u =>
    show (afterClose u).Apt op
    unfold afterClose
    split <;> trivial
  | @forgot h u =>
    show (afterForget h u).Apt op
    unfold afterForget
    split
    · exact ⟨.drained, rfl, rfl, nofun⟩
    · trivial
  | _ => exact apt

variable [DecidableEq K] [BEq M]

/-- Over a step from `φ` to `φ'`, what was owed before and what is earned is what is counted, or reported, and what is
owed then; and the operation is credited with what it counts for its answer. -/
structure Balanced (op : Operation K M) (e : Occurrence K M) (φ φ' : Progress K M) : Prop where
  counts : φ.uncounted?.toList ++ (e.earned? op).toList = e.raised?.toList ++ φ'.uncounted?.toList
  tells : φ.untold?.toList ++ (e.earned? op).toList = (e.reported?.map Event.counter).toList ++ φ'.untold?.toList
  credits : φ.credit?.toList ++ e.raised?.toList.filter (·.isCredit) = φ'.credit?.toList

/-- Where nothing is earned, counted or reported, nothing changes. -/
theorem balanced_idle {e : Occurrence K M} {φ' : Progress K M} (earned : e.earned? op = none) (raised : e.raised? = none)
    (reported : e.reported? = none) (counts : φ'.uncounted? = φ.uncounted?) (tells : φ'.untold? = φ.untold?)
    (credits : φ'.credit? = φ.credit?) : Balanced op e φ φ' := by
  constructor <;> simp [earned, raised, reported, counts, tells, credits]

/-- What is earned is owed to the counter and to the event. -/
theorem balanced_earns {e : Occurrence K M} {φ' : Progress K M} {c : Counter} (earned : e.earned? op = some c)
    (raised : e.raised? = none) (reported : e.reported? = none) (before : φ.uncounted? = none)
    (before' : φ.untold? = none) (counts : φ'.uncounted? = some c) (tells : φ'.untold? = some c)
    (credits : φ'.credit? = φ.credit?) : Balanced op e φ φ' := by
  constructor <;> simp [earned, raised, reported, before, before', counts, tells, credits]

/-- A deed that is no call leaves all accounts as they are. -/
theorem balanced_after {e : Occurrence K M} (apt : φ.Apt op) (hd : ∀ c r, e.deed ≠ .called c r)
    (allowed : φ.Allows rules op e.deed) : Balanced op e φ (φ.after rules policy e.deed) := by
  obtain ⟨n, env, data, d⟩ := e
  cases allowed with
  | called => exact absurd rfl (hd _ _)
  | @closed h u fate => rcases u with (f | ⟨⟩) | (f | (m | _ | _ | _)) <;> exact balanced_idle rfl rfl rfl rfl rfl rfl
  | @retired h u => rcases u with (f | ⟨⟩) | (f | (m | _ | _ | _)) <;> exact balanced_idle rfl rfl rfl rfl rfl rfl
  | @forgot h u =>
    rcases u with (f | ⟨⟩) | (f | (m | _ | _ | _))
    · exact balanced_idle rfl rfl rfl rfl rfl rfl
    · exact absurd rfl apt
    all_goals exact balanced_idle rfl rfl rfl rfl rfl rfl
  | _ => exact balanced_idle rfl rfl rfl rfl rfl rfl

variable [ReflBEq M] {data : Shared K M}

/-- A call earns what the operation then owes, or it counts or reports what it owes. -/
theorem balanced_afterCall {c : Request K M} (apt : φ.Apt op) (hc : φ.AllowsCall rules op c)
    (knows : φ.Knows rules policy data.store) (n : Nat) (env : Surroundings) :
    Balanced op ⟨n, env, data, .called c (data.perform env c).1⟩ φ (φ.afterCall rules policy c (data.perform env c).1) := by
  cases hc with
  | @add h m =>
    cases hr : (data.perform env (.add h.key m)).1 with
    | error f =>
      rcases f with e | text
      · cases policy <;> exact balanced_idle rfl rfl rfl rfl rfl rfl
      · exact balanced_idle rfl rfl rfl rfl rfl rfl
    | ok r => exact balanced_earns rfl rfl rfl rfl rfl rfl rfl rfl
  | @group h order pulls =>
    subst pulls
    rcases hr : (data.perform env (.group h.key)).1 with f | (_ | g)
    · exact balanced_idle rfl rfl rfl rfl rfl rfl
    · exact balanced_earns rfl rfl rfl rfl rfl rfl rfl rfl
    · exact balanced_idle rfl rfl rfl rfl rfl rfl
  | @lookUp h e =>
    obtain ⟨m, rfl⟩ := apt
    rcases hr : (data.perform env (.group h.key)).1 with (f | text) | (_ | g) <;>
      exact balanced_idle rfl rfl rfl rfl rfl rfl
  | @clock h g =>
    show Balanced op _ _ (afterClock rules h g env.now)
    unfold afterClock
    split <;> exact balanced_idle rfl rfl rfl rfl rfl rfl
  | @mark h g now m _ first =>
    cases hr : (data.perform env (.mark h.key m)).1 with
    | error f => exact balanced_idle rfl rfl rfl rfl rfl rfl
    | ok r =>
      have earned : (data.store.finds? h.key m).map (fun _ => Counter.released) = some .released := by
        rw [GroupStore.finds?_head knows.1 first]
        rfl
      exact balanced_earns earned rfl rfl rfl rfl rfl rfl rfl
  | @remove h g now m _ first =>
    cases hr : (data.perform env (.remove h.key m)).1 with
    | error f => exact balanced_idle rfl rfl rfl rfl rfl rfl
    | ok r =>
      have earned : (data.store.finds? h.key m).map (fun _ => Counter.released) = some .released := by
        rw [GroupStore.finds?_head knows.1 first]
        rfl
      exact balanced_earns earned rfl rfl rfl rfl rfl rfl rfl
  | @dropGroup h g now =>
    cases hr : (data.perform env (.dropGroup h.key)).1 with
    | error f => exact balanced_idle rfl rfl rfl rfl rfl rfl
    | ok r =>
      have earned : (data.store.group h.key).map (fun _ => Counter.groupsRemoved) = some .groupsRemoved := by
        rw [knows.1]
        rfl
      exact balanced_earns earned rfl rfl rfl rfl rfl rfl rfl
  | @report h event u fate =>
    obtain ⟨v, rfl, counter, stale⟩ := apt
    show Balanced op _ _ (afterReport policy h (.visit (.ok v)) fate)
    unfold afterReport
    split
    · obtain rfl := stale rfl
      exact ⟨List.append_nil _, rfl, rfl⟩
    · exact ⟨List.append_nil _, rfl, rfl⟩
  | @count u counter counts =>
    rcases u with (f | ⟨⟩) | (f | (m | _ | _ | _)) <;> cases counts <;> exact ⟨rfl, rfl, rfl⟩
  | announce => exact ⟨rfl, rfl, rfl⟩

omit [DecidableEq K] [BEq M] [ReflBEq M] in
/-- A thread that has answered owes nothing, and is credited with its answer. -/
theorem settled_of_ends {a : Answer K M} (ends : φ.Ends rules op a) :
    φ.uncounted? = none ∧ φ.untold? = none ∧ φ.credit? = a.credit? := by
  cases φ with
  | idle =>
    cases a with
    | accepted o =>
      obtain ⟨m, f, -, -, rfl⟩ := ends
      exact ⟨rfl, rfl, rfl⟩
    | pulled o =>
      obtain ⟨-, rfl⟩ := ends
      exact ⟨rfl, rfl, rfl⟩
  | left u => rcases u with (f | ⟨⟩) | (f | v) <;> cases ends <;> exact ⟨rfl, rfl, rfl⟩
  | finished a' =>
    cases ends
    exact ⟨rfl, rfl, rfl⟩
  | _ => exact ends.elim

end Progress

/-! ## the accounts of a thread -/

/-- What a thread has earned, counter by counter. -/
def earnedBy [DecidableEq K] [BEq M] (op : Operation K M) (n : Nat) (hist : List (Occurrence K M)) : List Counter :=
  (hist.filter (·.thread = n)).filterMap (·.earned? op)

/-- The counters that a thread has raised. -/
def raisedBy (n : Nat) (hist : List (Occurrence K M)) : List Counter :=
  (hist.filter (·.thread = n)).filterMap (·.raised?)

/-- The events that a thread has reported. -/
def reportedBy (n : Nat) (hist : List (Occurrence K M)) : List (Event K M) :=
  (hist.filter (·.thread = n)).filterMap (·.reported?)

variable [DecidableEq K] [BEq M]

/-- A thread has counted and reported what it has earned, one after the other, up to what it still owes. -/
structure Accounted (op : Operation K M) (n : Nat) (hist : List (Occurrence K M)) (φ : Progress K M) : Prop where
  apt : φ.Apt op
  counted : earnedBy op n hist = raisedBy n hist ++ φ.uncounted?.toList
  told : earnedBy op n hist = (reportedBy n hist).map Event.counter ++ φ.untold?.toList
  credited : (raisedBy n hist).filter (·.isCredit) = φ.credit?.toList

namespace Accounted

variable {op : Operation K M} {n : Nat} {hist : List (Occurrence K M)} {φ : Progress K M} {e : Occurrence K M}

theorem idle (hist : List (Occurrence K M)) (none : hist.filter (·.thread = n) = []) : Accounted op n hist .idle := by
  constructor <;> simp [Progress.Apt, Progress.uncounted?, Progress.untold?, Progress.credit?, earnedBy, raisedBy,
    reportedBy, none]

/-- What others do is not on the account of a thread. -/
theorem other (h : Accounted op n hist φ) (ne : e.thread ≠ n) : Accounted op n (hist ++ [e]) φ := by
  obtain ⟨apt, counted, told, credited⟩ := h
  constructor <;> simpa [earnedBy, raisedBy, reportedBy, ne]

/-- A balanced step keeps the accounts in order. -/
theorem step {φ' : Progress K M} (h : Accounted op n hist φ) (own : e.thread = n) (apt : φ'.Apt op)
    (balanced : Progress.Balanced op e φ φ') : Accounted op n (hist ++ [e]) φ' := by
  have earned : earnedBy op n (hist ++ [e]) = earnedBy op n hist ++ (e.earned? op).toList := by
    cases he : e.earned? op <;> simp [earnedBy, own, he]
  have raised : raisedBy n (hist ++ [e]) = raisedBy n hist ++ e.raised?.toList := by
    cases he : e.raised? <;> simp [raisedBy, own, he]
  have reported : (reportedBy n (hist ++ [e])).map Event.counter =
      (reportedBy n hist).map Event.counter ++ (e.reported?.map Event.counter).toList := by
    cases he : e.reported? <;> simp [reportedBy, own, he]
  refine ⟨apt, ?_, ?_, ?_⟩
  · rw [earned, raised, h.counted, List.append_assoc, balanced.counts, List.append_assoc]
  · rw [earned, reported, h.told, List.append_assoc, balanced.tells, List.append_assoc]
  · rw [raised, List.filter_append, h.credited, balanced.credits]

end Accounted

namespace Barrier.Course

variable {b : Barrier K M} {ops : List (Operation K M)} {hist : List (Occurrence K M)} {m : Threads K M}

/-- In every state the accounts of every thread are in order. -/
theorem accounted [ReflBEq M] (course : b.Course ops hist m) (fresh : b.table = .new .validated) {n : Nat}
    {op : Operation K M} (hop : ops[n]? = some op) : Accounted op n hist (b.progress n hist) := by
  induction course with
  | here => cases hop
  | @start ops hist m op' before ih =>
    by_cases hn : n < ops.length
    · rw [List.getElem?_append_left hn] at hop
      exact ih hop
    · have none : m.threads[n]? = none := List.getElem?_eq_none (before.length_threads ▸ Nat.le_of_not_lt hn)
      rw [before.progress_of_none none]
      refine .idle hist (List.filter_eq_nil_iff.2 fun e he => ?_)
      have lt := before.thread_lt e he
      simp only [decide_eq_true_eq]
      omega
  | @step ops hist m i env t d table data t' before thread op' operation allowed step ih =>
    rw [progress_append]
    by_cases hi : i = n
    · subst hi
      rw [operation] at hop
      cases hop
      have accounts := ih operation
      rw [if_pos rfl]
      refine accounts.step rfl (accounts.apt.after allowed) ?_
      rcases step.call_or_not with ⟨c, rfl, -⟩ | ⟨hd, -⟩
      · rw [Progress.after_called]
        exact Progress.balanced_afterCall accounts.apt (Progress.allows_called.1 allowed) (before.knows fresh i) i env
      · exact Progress.balanced_after accounts.apt hd allowed
    · rw [if_neg hi]
      exact (ih hop).other hi

end Barrier.Course

/-! ## the accounts of the shared data -/

section Performed

/-- The event that a line of the journal is. -/
def Entry.event? : Entry K M → Option (Event K M)
  | .reported event => some event
  | _ => none

omit [DecidableEq K] [BEq M] in
theorem Shared.onStore_keeps {α : Type} (data : Shared K M) (env : Surroundings) (method : StoreMethod) (k : K)
    (effect : GroupStore K M → Except StoreError (α × GroupStore K M)) :
    (data.onStore env method k effect).2.stats = data.stats ∧
      (data.onStore env method k effect).2.journal.filterMap Entry.event? = data.journal.filterMap Entry.event? := by
  unfold Shared.onStore
  cases env.fault method with
  | some fault => exact ⟨rfl, rfl⟩
  | none =>
    -- the line that notes the call is no event
    have noted : (Entry.called method k :: data.journal).filterMap Entry.event? = data.journal.filterMap Entry.event? := rfl
    dsimp only
    cases effect data.store with
    | error e => exact ⟨rfl, noted⟩
    | ok r => exact ⟨rfl, noted⟩

variable (data : Shared K M) (env : Surroundings) (c : Request K M) (n : Nat)

/-- A call raises a counter as its occurrence shows. -/
theorem Shared.read_perform (c' : Counter) :
    let e : Occurrence K M := ⟨n, env, data, .called c (data.perform env c).1⟩
    (data.perform env c).2.stats.read c' = data.stats.read c' + UInt64.ofNat (e.raised?.toList.count c') := by
  intro e
  cases c with
  | count c => exact data.stats.read_bump c c'
  | clock | report => exact (UInt64.add_zero _).symm
  | add | group | remove | mark | dropGroup =>
    refine (congrArg (Stats.read · c') (data.onStore_keeps env _ _ _).1).trans (UInt64.add_zero _).symm

/-- A call writes an event into the journal as its occurrence shows. -/
theorem Shared.events_perform :
    let e : Occurrence K M := ⟨n, env, data, .called c (data.perform env c).1⟩
    (data.perform env c).2.journal.filterMap Entry.event? = e.reported?.toList ++ data.journal.filterMap Entry.event? := by
  intro e
  cases c with
  | count | clock | report => rfl
  | add | group | remove | mark | dropGroup => exact (data.onStore_keeps env _ _ _).2

omit [BEq M] in
theorem GroupStore.groupCount_add {s s' : GroupStore K M} {now : Instant} {k : K} {m : M}
    (h : s.add now k m = .ok s') : s'.groupCount = s.groupCount + if (s.group k).isNone then 1 else 0 := by
  unfold add at h
  split at h
  · cases h
  · cases h
    rw [groupCount, Assoc.size_set, ← groupCount, group]
    by_cases mem : k ∈ s.groups.keys
    · have some : (s.groups.get? k).isNone = false := by simpa using Assoc.get?_isSome.2 mem
      rw [if_pos mem, some, if_neg Bool.false_ne_true]
    · rw [if_neg mem, Assoc.get?_eq_none.2 mem, if_pos Option.isNone_none]

omit [BEq M] in
theorem GroupStore.groupCount_change (s : GroupStore K M) (k : K) (f : Group K M → Group K M) :
    (s.change k f).groupCount = s.groupCount := by
  cases hg : s.group k with
  | none => rw [change, hg]
  | some g => rw [groupCount, ← Assoc.length_keys, keys_change hg, Assoc.length_keys, groupCount]

omit [BEq M] in
theorem GroupStore.groupCount_dropGroup (s : GroupStore K M) (k : K) :
    s.groupCount = (s.dropGroup k).groupCount + if (s.group k).isSome then 1 else 0 := by
  cases hg : s.group k with
  | none => rw [dropGroup_of_none hg, if_neg (by simp), Nat.add_zero]
  | some g => rw [if_pos Option.isSome_some, groupCount, groupCount, size_dropGroup hg]

/-- A call makes or drops a group as its occurrence shows. -/
theorem Shared.groups_perform :
    let e : Occurrence K M := ⟨n, env, data, .called c (data.perform env c).1⟩
    data.store.groupCount + (if e.creates then 1 else 0) =
      (data.perform env c).2.store.groupCount + if e.drops then 1 else 0 := by
  intro e
  have idle (hs : (data.perform env c).2.store = data.store) (hc : e.creates = false) (hd : e.drops = false) :
      data.store.groupCount + (if e.creates then 1 else 0) =
        (data.perform env c).2.store.groupCount + if e.drops then 1 else 0 := by rw [hs, hc, hd]
  cases c with
  | count | clock | report => exact idle rfl rfl rfl
  | group k => exact idle Shared.store_perform_group rfl rfl
  | add k m =>
    cases hr : (data.perform env (.add k m)).1 with
    | error f => exact idle (Shared.onStore_error hr) (by simp [e, Happening.creates, hr]) rfl
    | ok r =>
      have created : e.creates = (data.store.group k).isNone := by simp [e, Happening.creates, hr]
      rw [created, GroupStore.groupCount_add (Shared.perform_add_ok hr)]
      rfl
  | mark k m =>
    cases hr : (data.perform env (.mark k m)).1 with
    | error f => exact idle (Shared.onStore_error hr) rfl rfl
    | ok r =>
      rw [Shared.perform_mark_ok hr, GroupStore.mark, GroupStore.groupCount_change]
      rfl
  | remove k m =>
    cases hr : (data.perform env (.remove k m)).1 with
    | error f => exact idle (Shared.onStore_error hr) rfl rfl
    | ok r =>
      rw [Shared.perform_remove_ok hr, GroupStore.remove, GroupStore.groupCount_change]
      rfl
  | dropGroup k =>
    cases hr : (data.perform env (.dropGroup k)).1 with
    | error f => exact idle (Shared.onStore_error hr) rfl (by simp [e, Happening.drops, hr])
    | ok r =>
      have dropped : e.drops = (data.store.group k).isSome := by simp [e, Happening.drops, hr]
      rw [dropped, Shared.perform_dropGroup_ok hr, ← GroupStore.groupCount_dropGroup]
      rfl

end Performed

namespace Barrier.Course

variable {b : Barrier K M} {ops : List (Operation K M)} {hist : List (Occurrence K M)} {m : Threads K M}

/-- What holds of the shared data at first, and after every call if before, holds in every state. -/
theorem shown {R : List (Occurrence K M) → Shared K M → Prop} (course : b.Course ops hist m) (here : R [] b.shared)
    (call : ∀ {hist data} i env c, R hist data →
      R (hist ++ [⟨i, env, data, .called c (data.perform env c).1⟩]) (data.perform env c).2)
    (other : ∀ {hist data} i env d, (∀ c r, d ≠ .called c r) → R hist data → R (hist ++ [⟨i, env, data, d⟩]) data) :
    R hist m.data := by
  induction course with
  | here => exact here
  | start _ _ ih => exact ih
  | @step ops hist m i env t d table data t' before thread op operation allowed step ih =>
    rcases step.call_or_not with ⟨c, rfl, rfl⟩ | ⟨hd, rfl⟩
    · exact call i env c ih
    · exact other i env d hd ih

/-- The counters are what has been counted. -/
theorem read_stats (course : b.Course ops hist m) (fresh : b.shared.stats = {}) (c : Counter) :
    m.data.stats.read c = UInt64.ofNat ((hist.filterMap (·.raised?)).count c) := by
  refine course.shown (R := fun hist data => data.stats.read c = UInt64.ofNat ((hist.filterMap (·.raised?)).count c))
    ?_ (fun {hist data} i env c' ih => ?_) fun {hist data} i env d hd ih => ?_
  · rw [fresh]
    cases c <;> rfl
  · rw [data.read_perform env c' i, ih, List.filterMap_append, List.count_append, UInt64.ofNat_add]
    cases c' <;> rfl
  · cases d with
    | called c r => exact absurd rfl (hd c r)
    | _ => rwa [List.filterMap_append, List.filterMap_cons_none rfl, List.filterMap_nil, List.append_nil]

/-- The events in the journal are those that have been reported, in order. -/
theorem events (course : b.Course ops hist m) (fresh : b.shared.journal = []) :
    (ofThreads b.rules m).events = hist.filterMap (·.reported?) := by
  refine course.shown
    (R := fun hist data => (data.journal.filterMap Entry.event?).reverse = hist.filterMap (·.reported?))
    ?_ (fun {hist data} i env c ih => ?_) fun {hist data} i env d hd ih => ?_
  · rw [fresh]
    rfl
  · rw [data.events_perform env c i, List.reverse_append, ih, List.filterMap_append]
    congr 1
    cases c <;> rfl
  · cases d with
    | called c r => exact absurd rfl (hd c r)
    | _ => rwa [List.filterMap_append, List.filterMap_cons_none rfl, List.filterMap_nil, List.append_nil]

/-- The groups that were made are those that were dropped and those that are there. -/
theorem groups_created (course : b.Course ops hist m) (bare : b.shared.store.groupCount = 0) :
    hist.countP (·.creates) = hist.countP (·.drops) + m.data.store.groupCount := by
  refine course.shown (R := fun hist data => hist.countP (·.creates) = hist.countP (·.drops) + data.store.groupCount)
    ?_ (fun {hist data} i env c ih => ?_) fun {hist data} i env d hd ih => ?_
  · rw [bare]
    rfl
  · have groups := data.groups_perform env c i
    rw [List.countP_append, List.countP_append, List.countP_singleton, List.countP_singleton, ih]
    omega
  · cases d with
    | called c r => exact absurd rfl (hd c r)
    | _ => rwa [List.countP_append, List.countP_append]

end Barrier.Course

/-! ## counting by threads and by keys -/

/-- What is counted for each value of a key is counted altogether. -/
theorem sum_countP_filter {α ι : Type} [DecidableEq ι] (key : α → ι) (p : α → Bool) (S : Finset ι) (l : List α)
    (mem : ∀ x ∈ l, key x ∈ S) : ∑ a ∈ S, (l.filter (key · = a)).countP p = l.countP p := by
  induction l with
  | nil => simp
  | cons x l ih =>
    have head (a : ι) : ((x :: l).filter (key · = a)).countP p =
        (l.filter (key · = a)).countP p + if key x = a then [x].countP p else 0 := by
      by_cases h : key x = a
      · rw [List.filter_cons_of_pos (by simpa), if_pos h, ← List.singleton_append, List.countP_append, Nat.add_comm]
      · rw [List.filter_cons_of_neg (by simpa), if_neg h, Nat.add_zero]
    rw [Finset.sum_congr rfl fun a _ => head a, Finset.sum_add_distrib, Finset.sum_ite_eq,
      if_pos (mem x List.mem_cons_self), ih fun y hy => mem y (List.mem_cons_of_mem _ hy), Nat.add_comm,
      ← List.countP_append, List.singleton_append]

/-- What is counted of each element of a list is counted of its values. -/
theorem sum_count_getElem? {α β : Type} [BEq β] (f : α → Option β) (c : β) (l : List α) :
    ∑ n ∈ Finset.range l.length, ((l[n]?.bind f).toList).count c = (l.filterMap f).count c := by
  induction l using List.reverseRecOn with
  | nil => rfl
  | append_singleton l x ih =>
    have before (n : Nat) (hn : n ∈ Finset.range l.length) :
        (((l ++ [x])[n]?.bind f).toList).count c = ((l[n]?.bind f).toList).count c := by
      rw [List.getElem?_append_left (Finset.mem_range.1 hn)]
    rw [List.length_append, List.length_singleton, Finset.sum_range_succ, Finset.sum_congr rfl before, ih,
      List.getElem?_concat_length, List.filterMap_append, List.count_append, Option.bind_some]
    cases h : f x <;> simp [h]

/-- What all threads have earned, counter by counter. -/
def tally (ops : List (Operation K M)) (hist : List (Occurrence K M)) : List Counter :=
  hist.filterMap fun e => ops[e.thread]?.bind fun op => e.earned? op

/-- The number of unmarked messages in all groups. -/
def GroupStore.backlog (s : GroupStore K M) : Nat := (s.groups.keys.map fun k => (s.unmarked k).length).sum

/-- What is earned for a message that goes in or comes out, and for a group that is dropped. -/
theorem Happening.earned?_iff (op : Operation K M) (e : Occurrence K M) :
    (e.earned? op = some .accepted ↔ e.added?.isSome) ∧ (e.earned? op = some .released ↔ e.taken?.isSome) ∧
      (e.earned? op = some .groupsRemoved ↔ e.drops) := by
  obtain ⟨n, env, data, d⟩ := e
  cases d with
  | called c r =>
    cases c with
    | add k m => rcases r with f | ⟨⟩ <;> simp [earned?, added?, taken?, drops]
    | mark k m | remove k m =>
      rcases r with f | ⟨⟩
      · simp [earned?, added?, taken?, drops]
      · cases h : data.store.finds? k m <;> simp [earned?, added?, taken?, drops, h]
    | dropGroup k =>
      rcases r with f | ⟨⟩
      · simp [earned?, added?, taken?, drops]
      · cases h : data.store.group k <;> simp [earned?, added?, taken?, drops, h]
    | group k => rcases r with f | (_ | g) <;> cases op <;> simp [earned?, added?, taken?, drops]
    | clock | count | report => simp [earned?, added?, taken?, drops]
  | _ => simp [earned?, added?, taken?, drops]

/-- The occurrences of a kind are counted in the tally. -/
theorem count_tally {ops : List (Operation K M)} {hist : List (Occurrence K M)}
    (begun : ∀ e ∈ hist, e.thread < ops.length) {c : Counter} {p : Occurrence K M → Bool}
    (kind : ∀ op e, Happening.earned? op e = some c ↔ p e) : (tally ops hist).count c = hist.countP p := by
  rw [tally, List.count_filterMap]
  refine List.countP_congr fun e he => ?_
  rw [List.getElem?_eq_getElem (begun e he), Option.bind_some, beq_iff_eq]
  exact kind _ e

omit [DecidableEq K] [BEq M] in
/-- What is counted of a history is counted thread by thread. -/
theorem count_by_thread {N : Nat} {hist : List (Occurrence K M)} (begun : ∀ e ∈ hist, e.thread < N)
    (f : Occurrence K M → Option Counter) (c : Counter) :
    (hist.filterMap f).count c = ∑ n ∈ Finset.range N, ((hist.filter (·.thread = n)).filterMap f).count c := by
  simp only [List.count_filterMap]
  exact (sum_countP_filter (·.thread) _ _ hist fun e he => Finset.mem_range.2 (begun e he)).symm

/-- The tally is what the threads have earned. -/
theorem count_tally_by_thread {ops : List (Operation K M)} {hist : List (Occurrence K M)}
    (begun : ∀ e ∈ hist, e.thread < ops.length) (c : Counter) {counts : Nat → Nat}
    (each : ∀ n op, ops[n]? = some op → (earnedBy op n hist).count c = counts n) :
    (tally ops hist).count c = ∑ n ∈ Finset.range ops.length, counts n := by
  rw [tally, count_by_thread begun]
  refine Finset.sum_congr rfl fun n hn => ?_
  have hop := List.getElem?_eq_getElem (Finset.mem_range.1 hn)
  rw [← each n _ hop, earnedBy]
  congr 1
  refine List.filterMap_congr fun e he => ?_
  have own : e.thread = n := by simpa using (List.mem_filter.1 he).2
  rw [own, hop, Option.bind_some]

/-! ## the backlog -/

omit [BEq M] in
/-- The messages under the keys of `S` are all messages whose keys are in `S`. -/
theorem sum_length_underKey (S : Finset K) (kms : List (K × M)) (mem : ∀ x ∈ kms, x.1 ∈ S) :
    ∑ k ∈ S, (underKey k kms).length = kms.length := by
  have all := sum_countP_filter (·.1) (fun _ => true) S kms mem
  simpa [underKey] using all

omit [BEq M] in
theorem GroupStore.backlog_eq_sum (s : GroupStore K M) {S : Finset K} (sub : s.groups.keys.toFinset ⊆ S) :
    s.backlog = ∑ k ∈ S, (s.unmarked k).length := by
  rw [backlog, ← List.sum_toFinset _ s.groups.keys_nodup]
  refine Finset.sum_subset sub fun k _ out => ?_
  have none : s.group k = none := Assoc.get?_eq_none.2 fun mem => out (List.mem_toFinset.2 mem)
  rw [unmarked, none]
  rfl

/-- The messages that went in are those that came out and those that are unmarked. -/
theorem Barrier.Course.added_backlog [ReflBEq M] {b : Barrier K M} {ops : List (Operation K M)}
    {hist : List (Occurrence K M)} {m : Threads K M} (course : b.Course ops hist m)
    (fresh : b.table = .new .validated) (bare : ∀ k, b.shared.store.group k = none) :
    (hist.filterMap (·.added?)).length = (hist.filterMap (·.taken?)).length + m.data.store.backlog := by
  let S := m.data.store.groups.keys.toFinset ∪ ((hist.filterMap (·.added?)).map (·.1)).toFinset ∪
    ((hist.filterMap (·.taken?)).map (·.1)).toFinset
  have keys : m.data.store.groups.keys.toFinset ⊆ S := fun k hk =>
    Finset.mem_union_left _ (Finset.mem_union_left _ hk)
  have keys_added : ∀ x ∈ hist.filterMap (·.added?), x.1 ∈ S := fun x hx =>
    Finset.mem_union_left _ (Finset.mem_union_right _ (List.mem_toFinset.2 (List.mem_map_of_mem hx)))
  have keys_taken : ∀ x ∈ hist.filterMap (·.taken?), x.1 ∈ S := fun x hx =>
    Finset.mem_union_right _ (List.mem_toFinset.2 (List.mem_map_of_mem hx))
  rw [← sum_length_underKey S _ keys_added, ← sum_length_underKey S _ keys_taken,
    m.data.store.backlog_eq_sum keys, ← Finset.sum_add_distrib]
  refine Finset.sum_congr rfl fun k _ => ?_
  have ledger := congrArg List.length (course.ledger fresh bare k)
  rwa [List.length_append] at ledger

/-! ## when nothing is on its way -/

namespace Barrier.Course

variable [ReflBEq M] {b : Barrier K M} {ops : List (Operation K M)} {hist : List (Occurrence K M)} {m : Threads K M}

/-- When all threads have answered, each has counted and reported what it has earned, and was credited with its answer. -/
theorem settled (course : b.Course ops hist m) (fresh : b.table = .new .validated)
    (quiet : ∀ t ∈ m.threads, t.answer?.isSome) {n : Nat} {op : Operation K M} (hop : ops[n]? = some op) :
    earnedBy op n hist = raisedBy n hist ∧ earnedBy op n hist = (reportedBy n hist).map Event.counter ∧
      ∃ t a, m.threads[n]? = some t ∧ t.answer? = some a ∧ (raisedBy n hist).filter (·.isCredit) = a.credit?.toList := by
  have lt : n < m.threads.length := course.length_threads ▸ (List.getElem?_eq_some_iff.1 hop).1
  have ht := List.getElem?_eq_getElem lt
  obtain ⟨a, ha⟩ := Option.isSome_iff_exists.1 (quiet _ (List.mem_of_getElem? ht))
  obtain ⟨-, counted, told, credited⟩ := course.accounted fresh hop
  obtain ⟨uncounted, untold, credit⟩ := Progress.settled_of_ends (course.ends ht hop ha).2
  rw [uncounted, Option.toList_none, List.append_nil] at counted
  rw [untold, Option.toList_none, List.append_nil] at told
  exact ⟨counted, told, _, a, ht, ha, credited.trans (congrArg _ credit)⟩

/-- What was accepted or handed out is what the threads answer. -/
theorem count_credited (course : b.Course ops hist m) (fresh : b.table = .new .validated)
    (quiet : ∀ t ∈ m.threads, t.answer?.isSome) {c : Counter} (hc : c.isCredit) :
    (tally ops hist).count c = ((m.threads.filterMap (·.answer?)).filterMap (·.credit?)).count c := by
  rw [List.filterMap_filterMap, ← sum_count_getElem?, course.length_threads]
  refine count_tally_by_thread course.thread_lt c fun n op hop => ?_
  obtain ⟨counted, -, t, a, ht, ha, credit⟩ := course.settled fresh quiet hop
  rw [counted, ← List.count_filter hc, credit, ht, Option.bind_some, ha, Option.bind_some]

/-- The counters are what the threads have earned. -/
theorem count_raised (course : b.Course ops hist m) (fresh : b.table = .new .validated)
    (quiet : ∀ t ∈ m.threads, t.answer?.isSome) (c : Counter) :
    (tally ops hist).count c = (hist.filterMap (·.raised?)).count c := by
  rw [count_by_thread course.thread_lt]
  refine count_tally_by_thread course.thread_lt c fun n op hop => ?_
  rw [(course.settled fresh quiet hop).1, raisedBy]

/-- The events are what the threads have earned. -/
theorem count_reported (course : b.Course ops hist m) (fresh : b.table = .new .validated)
    (quiet : ∀ t ∈ m.threads, t.answer?.isSome) (c : Counter) :
    (tally ops hist).count c = ((hist.filterMap (·.reported?)).map Event.counter).count c := by
  rw [List.map_filterMap, count_by_thread course.thread_lt]
  refine count_tally_by_thread course.thread_lt c fun n op hop => ?_
  rw [(course.settled fresh quiet hop).2.1, reportedBy, List.map_filterMap]

end Barrier.Course

/-- **The accounts balance.** Whenever all threads of a validated barrier have answered, each with what it may, then every
thread has counted and reported what it has done, also if it has failed. The counters and the events are as many as the
tally of all threads says: the messages accepted are the threads that answer so, as are those handed out; and what was
accepted was handed out or is unmarked, what groups were made were dropped or are there. -/
theorem Barrier.accounts_balance [ReflBEq M] (rules : Rules K M) (capacity : Nat) (turns : List (Turn K M))
    (quiet : ∀ t ∈ ((Barrier.new rules .validated capacity).play turns).threads, t.answer?.isSome) :
    let b := Barrier.new rules .validated capacity
    let m := b.play turns
    let hist := b.chronicle turns
    let count := fun c => (tally (operations turns) hist).count c
    let credited := fun c => ((m.threads.filterMap (·.answer?)).filterMap (·.credit?)).count c
    (∀ n op, (operations turns)[n]? = some op →
      earnedBy op n hist = raisedBy n hist ∧ earnedBy op n hist = (reportedBy n hist).map Event.counter) ∧
    (∀ c, m.data.stats.read c = UInt64.ofNat (count c)) ∧
    (∀ c, ((ofThreads rules m).events.map Event.counter).count c = count c) ∧
    count .accepted = credited .accepted ∧
    count .released = credited .released ∧
    count .groupsRemoved = hist.countP (·.drops) ∧
    count .accepted = count .released + m.data.store.backlog ∧
    hist.countP (·.creates) = count .groupsRemoved + m.data.store.groupCount := by
  intro b m hist count credited
  have course : b.Course (operations turns) hist m := b.course_play turns
  have accepted : count .accepted = (hist.filterMap (·.added?)).length := by
    rw [List.length_filterMap_eq_countP]
    exact count_tally course.thread_lt fun op e => (e.earned?_iff op).1
  have released : count .released = (hist.filterMap (·.taken?)).length := by
    rw [List.length_filterMap_eq_countP]
    exact count_tally course.thread_lt fun op e => (e.earned?_iff op).2.1
  have removed : count .groupsRemoved = hist.countP (·.drops) :=
    count_tally course.thread_lt fun op e => (e.earned?_iff op).2.2
  refine ⟨fun n op hop => ?_, fun c => ?_, fun c => ?_, course.count_credited rfl quiet rfl,
    course.count_credited rfl quiet rfl, removed, ?_, ?_⟩
  · obtain ⟨counted, told, -⟩ := course.settled rfl quiet hop
    exact ⟨counted, told⟩
  · exact (course.read_stats rfl c).trans (congrArg _ (course.count_raised rfl quiet c).symm)
  · have events : (ofThreads rules m).events = hist.filterMap (·.reported?) := course.events rfl
    rw [events]
    exact (course.count_reported rfl quiet c).symm
  · rw [accepted, released]
    exact course.added_backlog rfl fun _ => rfl
  · rw [removed]
    exact course.groups_created rfl

/-- A message is accepted and handed out. Of two pulls side by side, one then drops the group, and the other comes too
late. -/
theorem Barrier.accounts_of_four_threads :
    let rules : Rules Nat Nat := ⟨fun m => .ok (m % 2), .always, .mark⟩
    let pull : Turn Nat Nat := .start (.pull .asListed)
    let turns : List (Turn Nat Nat) := [[.start (.accept 7)], List.replicate 12 (.advance 0 {}), [pull],
      List.replicate 14 (.advance 1 {}), [pull, pull], (List.range 40).map fun i => .advance (2 + i % 2) {}].flatten
    (∀ t ∈ ((Barrier.new rules .validated 0).play turns).threads, t.answer?.isSome) ∧
      tally (operations turns) ((Barrier.new rules .validated 0).chronicle turns) =
        [.accepted, .released, .groupsRemoved, .staleKeys] ∧
      ∀ c, ((Barrier.new rules .validated 0).play turns).data.stats.read c =
        UInt64.ofNat ((tally (operations turns) ((Barrier.new rules .validated 0).chronicle turns)).count c) := by
  intro rules pull turns
  have quiet : ∀ t ∈ ((Barrier.new rules .validated 0).play turns).threads, t.answer?.isSome :=
    List.all_eq_true.1 (by cbv)
  have tallied : tally (operations turns) ((Barrier.new rules .validated 0).chronicle turns) =
      [.accepted, .released, .groupsRemoved, .staleKeys] := by decide +kernel
  exact ⟨quiet, tallied, (accounts_balance rules 0 turns quiet).2.1⟩

end CorrelationBarrier
