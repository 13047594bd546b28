import CorrelationBarrier.Barrier.Operation
import CorrelationBarrier.Proofs.Exclusion

/-!
# The progress of an operation

How far an operation is, as its own deeds show it, and which deeds may come next.

* `Progress` — the phases of both operations; `Progress.after` goes from one to the next as deeds and replies say;
* `Progress.Allows` — the deeds that an operation may do in a phase; `Progress.Ends` — the answers with which it may
  end;
* `Act.Conforms` — a program does what its phase allows, whatever the replies; `conforms_ofOperation`;
* `Progress.stay?` — the open section in a phase.

A phase carries what the operation has learnt: the group it saw, and what its section came to (`Upshot`).
-/

namespace CorrelationBarrier

variable {K M : Type}

/-- What a whole section came to. -/
inductive Upshot (K M : Type) where
  | intake (outcome : Outcome StoreError Unit)
  | visit (outcome : Outcome (BarrierError K) (Visit M))

namespace Upshot

/-- The counter that is raised after a section. -/
def counter? : Upshot K M → Option Counter
  | .intake (.ok ()) => some .accepted
  | .visit (.ok (.released _)) => some .released
  | .visit (.ok .drained) => some .groupsRemoved
  | .visit (.ok .stale) => some .staleKeys
  | _ => none

/-- The answer of an operation that ends with a failure of its section. -/
def failure? : Upshot K M → Option (Answer K M)
  | .intake (.error f) => some (.accepted (.error (f.map .store)))
  | .visit (.error f) => some (.pulled (.error f))
  | _ => none

end Upshot

/-- What a section knows of its key once it has made its calls. -/
inductive Fate where
  /-- The key has a group. -/
  | kept
  /-- The key has no group, and it was forgotten. -/
  | forgotten
  /-- The key has no group. -/
  | missing
  /-- A call failed, and whether there is a group is not known. -/
  | unknown
  deriving DecidableEq

/-- How far an operation is. -/
inductive Progress (K M : Type) where
  /-- No section is open, and none of the last one's business is left. -/
  | idle
  | entered (h : Held K)
  /-- The store has refused the message. -/
  | refused (h : Held K) (e : StoreError)
  | saw (h : Held K) (g : Group K M)
  /-- The group may release its messages. -/
  | cleared (h : Held K) (g : Group K M) (now : Instant)
  /-- An event is about to be reported. -/
  | telling (h : Held K) (event : Event K M) (u : Upshot K M) (fate : Fate)
  /-- The key has no group and is about to be forgotten. -/
  | vacant (h : Held K) (u : Upshot K M)
  | forgetting (h : Held K) (u : Upshot K M)
  /-- All that is left of the section is to close it. -/
  | settled (h : Held K) (u : Upshot K M) (fate : Fate)
  /-- The section is closed, and what it came to is not yet counted or answered. -/
  | left (u : Upshot K M)
  /-- The message is accepted and counted, and not yet reported. -/
  | counted
  | finished (a : Answer K M)

namespace Progress

/-! ## from one phase to the next -/

def afterAdd (policy : TokenPolicy) (h : Held K) : Outcome StoreError Unit → Progress K M
  | .ok () => .settled h (.intake (.ok ())) .kept
  | .error (.panic text) => .settled h (.intake (Outcome.panicked text)) .unknown
  | .error (.error e) =>
    match policy with
    | .validated => .refused h e
    | .tolerant => .settled h (.intake (Outcome.failed e)) .unknown

/-- After the look-up that follows a refusal. -/
def afterLookup (h : Held K) (e : StoreError) : Outcome StoreError (Option (Group K M)) → Progress K M
  | .ok none => .vacant h (.intake (Outcome.failed e))
  | .ok (some _) => .settled h (.intake (Outcome.failed e)) .kept
  | .error (.panic text) => .settled h (.intake (Outcome.panicked text)) .unknown
  | .error (.error _) => .settled h (.intake (Outcome.failed e)) .unknown

def afterGroup (h : Held K) : Outcome StoreError (Option (Group K M)) → Progress K M
  | .error f => .settled h (.visit (.error (f.map .store))) .unknown
  | .ok none => .telling h (.staleKey h.key) (.visit (.ok .stale)) .missing
  | .ok (some g) => .saw h g

def afterClock (rules : Rules K M) (h : Held K) (g : Group K M) (now : Instant) : Progress K M :=
  match rules.release g now with
  | .error f => .settled h (.visit (.error (f.map (.release h.key)))) .kept
  | .ok false => .settled h (.visit (.ok .held)) .kept
  | .ok true => .cleared h g now

def afterHandOut (h : Held K) (m : M) : Outcome StoreError Unit → Progress K M
  | .error f => .settled h (.visit (.error (f.map .store))) .kept
  | .ok () => .telling h (.released h.key m) (.visit (.ok (.released m))) .kept

def afterDrop (h : Held K) : Outcome StoreError Unit → Progress K M
  | .error f => .settled h (.visit (.error (f.map .store))) .kept
  | .ok () => .vacant h (.visit (.ok .drained))

def afterReport (policy : TokenPolicy) (h : Held K) (u : Upshot K M) (fate : Fate) : Progress K M :=
  match fate, policy with
  | .missing, .validated => .vacant h u
  | _, _ => .settled h u fate

def afterForget (h : Held K) : Upshot K M → Progress K M
  | .visit (.ok .drained) => .telling h (.drained h.key) (.visit (.ok .drained)) .forgotten
  | u => .settled h u .forgotten

def afterClose : Upshot K M → Progress K M
  | .visit (.ok .held) => .idle
  | u => .left u

def afterCount : Upshot K M → Progress K M
  | .intake _ => .counted
  | .visit (.ok (.released m)) => .finished (.pulled (.ok (some m)))
  | .visit _ => .idle

variable (rules : Rules K M) (policy : TokenPolicy)

/-- The phase after a call. -/
def afterCall : Progress K M → (c : Request K M) → c.Reply → Progress K M
  | .entered h, .add _ _, r => afterAdd policy h r
  | .entered h, .group _, r => afterGroup h r
  | .refused h e, .group _, r => afterLookup h e r
  | .saw h g, .clock, now => afterClock rules h g now
  | .cleared h _ _, .mark _ m, r => afterHandOut h m r
  | .cleared h _ _, .remove _ m, r => afterHandOut h m r
  | .cleared h _ _, .dropGroup _, r => afterDrop h r
  | .telling h _ u fate, .report _, _ => afterReport policy h u fate
  | .left u, .count _, _ => afterCount u
  | .counted, .report _, _ => .finished (.accepted (.ok ()))
  | φ, _, _ => φ

/-- The phase after a deed. -/
def after : Progress K M → Deed K (Request.interface K M) → Progress K M
  | .idle, .opened h => .entered h
  | .vacant h u, .retired _ => .forgetting h u
  | .forgetting h u, .forgot _ _ => afterForget h u
  | .settled _ u _, .closed => afterClose u
  | φ, .called c r => φ.afterCall rules policy c r
  | φ, _ => φ

/-! ## what may come next -/

variable (op : Operation K M)

/-- The calls that an operation may make in a phase. -/
inductive AllowsCall : Progress K M → Request K M → Prop where
  | add {h m} (accepts : op = .accept m) : AllowsCall (.entered h) (.add h.key m)
  | group {h order} (pulls : op = .pull order) : AllowsCall (.entered h) (.group h.key)
  | lookUp {h e} : AllowsCall (.refused h e) (.group h.key)
  | clock {h g} : AllowsCall (.saw h g) .clock
  | mark {h g now m} (mode : rules.mode = .mark) (first : g.unmarked.head? = some m) :
    AllowsCall (.cleared h g now) (.mark h.key m)
  | remove {h g now m} (mode : rules.mode = .remove) (first : g.unmarked.head? = some m) :
    AllowsCall (.cleared h g now) (.remove h.key m)
  | dropGroup {h g now} (drained : g.unmarked = []) : AllowsCall (.cleared h g now) (.dropGroup h.key)
  | report {h event u fate} : AllowsCall (.telling h event u fate) (.report event)
  | count {u counter} (counts : u.counter? = some counter) : AllowsCall (.left u) (.count counter)
  | announce {k m} (accepts : op = .accept m) (key : rules.correlate m = .ok k) :
    AllowsCall .counted (.report (.accepted k m))

/-- Whether an operation has business with a key: an accepting one with the key of its message only. -/
def Concerns (k : K) : Prop := ∀ m, op = .accept m → rules.correlate m = .ok k

/-- The deeds that an operation may do in a phase. -/
inductive Allows : Progress K M → Deed K (Request.interface K M) → Prop where
  | looked {table order} (pulls : op = .pull order) : Allows .idle (.looked table)
  | sought {k i} (concerns : Concerns rules op k) : Allows .idle (.sought k i)
  | declined {i} : Allows .idle (.declined i)
  | gaveBack {i} : Allows .idle (.gaveBack i)
  | opened {h} (concerns : Concerns rules op h.key) : Allows .idle (.opened h)
  | retired {h u} : Allows (.vacant h u) (.retired 0)
  | forgot {h u b} : Allows (.forgetting h u) (.forgot 0 b)
  | closed {h u fate} : Allows (.settled h u fate) .closed
  | called {φ c r} (call : AllowsCall rules op φ c) : Allows φ (.called c r)

/-- The answers with which an operation may end in a phase. -/
def Ends : Progress K M → Answer K M → Prop
  | .idle, .accepted o => ∃ m f, op = .accept m ∧ rules.correlate m = .error f ∧ o = .error (f.map .correlation)
  | .idle, .pulled o => (∃ order, op = .pull order) ∧ o = .ok none
  | .left u, a => u.failure? = some a
  | .finished a, a' => a' = a
  | _, _ => False

end Progress

/-! ## the operations keep to their phases -/

namespace Act

variable (rules : Rules K M) (policy : TokenPolicy) (op : Operation K M) {α β : Type}

/-- Whatever the replies, a program that starts in a phase does only what its phases allow, and its answer satisfies `Q`
in the phase in which it ends. -/
def Conforms (Q : Progress K M → α → Prop) : Act K M α → Progress K M → Prop
  | .done a, φ => Q φ a
  | .acquire k next, φ => ∀ i, φ.Allows rules op (.fetched k i) ∧
      Conforms Q (next i) (φ.after rules policy (.fetched k i))
  | .look next, φ => ∀ t, φ.Allows rules op (.looked t) ∧ Conforms Q (next t) (φ.after rules policy (.looked t))
  | .enter k next, φ => ∀ i, φ.Allows rules op (.sought k i) ∧ φ.Allows rules op (.declined i) ∧
      φ.Allows rules op (.gaveBack i) ∧ φ.Allows rules op (.opened ⟨k, i⟩) ∧
      Conforms Q next (φ.after rules policy (.opened ⟨k, i⟩))
  | .leave next, φ => φ.Allows rules op .closed ∧ Conforms Q next (φ.after rules policy .closed)
  | .forget depth next, φ => φ.Allows rules op (.retired depth) ∧
      ∀ b, (φ.after rules policy (.retired depth)).Allows rules op (.forgot depth b) ∧
        Conforms Q (next b) ((φ.after rules policy (.retired depth)).after rules policy (.forgot depth b))
  | .isCurrent depth next, φ => ∀ b, φ.Allows rules op (.asked depth b) ∧
      Conforms Q (next b) (φ.after rules policy (.asked depth b))
  | .call c next, φ => φ.AllowsCall rules op c ∧ ∀ r, Conforms Q (next r) (φ.afterCall rules policy c r)

variable {rules policy op}

theorem Conforms.bind {Q : Progress K M → α → Prop} {R : Progress K M → β → Prop} {p : Act K M α} {f : α → Act K M β}
    {φ : Progress K M} (hp : p.Conforms rules policy op Q φ) (hf : ∀ φ a, Q φ a → (f a).Conforms rules policy op R φ) :
    Conforms rules policy op R (p.bind f) φ := by
  induction p generalizing φ with
  | done a => exact hf φ a hp
  | acquire k _ ih => exact fun i => ⟨(hp i).1, ih i (hp i).2⟩
  | look _ ih => exact fun t => ⟨(hp t).1, ih t (hp t).2⟩
  | enter k _ ih => exact fun i => ⟨(hp i).1, (hp i).2.1, (hp i).2.2.1, (hp i).2.2.2.1, ih (hp i).2.2.2.2⟩
  | leave _ ih => exact ⟨hp.1, ih hp.2⟩
  | forget _ _ ih => exact ⟨hp.1, fun b => ⟨(hp.2 b).1, ih b (hp.2 b).2⟩⟩
  | isCurrent _ _ ih => exact fun b => ⟨(hp b).1, ih b (hp b).2⟩
  | call c _ ih => exact ⟨hp.1, fun r => ih r (hp.2 r)⟩

/-- A program inside the section `h` does only what its phases allow, neither leaves the section nor enters another one,
and in the end the section is settled with the upshot of the answer. -/
def Settles (rules : Rules K M) (policy : TokenPolicy) (op : Operation K M) (upshot : α → Upshot K M) (h : Held K) :
    Act K M α → Progress K M → Prop
  | .done a, φ => ∃ fate, φ = .settled h (upshot a) fate
  | .forget depth next, φ => φ.Allows rules op (.retired depth) ∧
      ∀ b, (φ.after rules policy (.retired depth)).Allows rules op (.forgot depth b) ∧
        Settles rules policy op upshot h (next b)
          ((φ.after rules policy (.retired depth)).after rules policy (.forgot depth b))
  | .call c next, φ => φ.AllowsCall rules op c ∧
      ∀ r, Settles rules policy op upshot h (next r) (φ.afterCall rules policy c r)
  | _, _ => False

theorem Settles.bind {upshot : α → Upshot K M} {h : Held K} {R : Progress K M → β → Prop} {p : Act K M α}
    {f : α → Act K M β} {φ : Progress K M} (hp : Settles rules policy op upshot h p φ)
    (hf : ∀ a fate, Conforms rules policy op R (f a) (.settled h (upshot a) fate)) :
    Conforms rules policy op R (p.bind f) φ := by
  induction p generalizing φ with
  | done a =>
    obtain ⟨fate, rfl⟩ := hp
    exact hf a fate
  | forget _ _ ih => exact ⟨hp.1, fun b => ⟨(hp.2 b).1, ih b (hp.2 b).2⟩⟩
  | call c _ ih => exact ⟨hp.1, fun r => ih r (hp.2 r)⟩
  | _ => exact hp.elim

theorem settles_intake {h : Held K} {m : M} (hop : op = .accept m) :
    Settles rules policy op .intake h (intake policy h.key m) (.entered h) := by
  refine ⟨.add hop, fun r => ?_⟩
  match r with
  | .ok () => exact ⟨_, rfl⟩
  | .error (.panic text) => exact ⟨_, rfl⟩
  | .error (.error e) =>
    cases policy with
    | tolerant => exact ⟨_, rfl⟩
    | validated =>
      refine ⟨.lookUp, fun r => ?_⟩
      match r with
      | .ok none => exact ⟨.retired, fun b => ⟨.forgot, _, rfl⟩⟩
      | .ok (some g) => exact ⟨_, rfl⟩
      | .error (.panic text) => exact ⟨_, rfl⟩
      | .error (.error e') => exact ⟨_, rfl⟩

theorem settles_visit {h : Held K} {order : WalkOrder K} (hop : op = .pull order) :
    Settles rules policy op .visit h (visit rules policy h.key) (.entered h) := by
  refine ⟨.group hop, fun r => ?_⟩
  match r with
  | .error f => exact ⟨_, rfl⟩
  | .ok none =>
    refine ⟨.report, fun _ => ?_⟩
    cases policy with
    | tolerant => exact ⟨_, rfl⟩
    | validated => exact ⟨.retired, fun b => ⟨.forgot, _, rfl⟩⟩
  | .ok (some g) =>
    refine ⟨.clock, fun now => ?_⟩
    show Settles rules policy op _ _ _ (Progress.afterClock rules h g now)
    dsimp only [Progress.afterClock, Program.bind]
    cases hjudged : rules.release g now with
    | error f => exact ⟨_, rfl⟩
    | ok may =>
      cases may with
      | false => exact ⟨_, rfl⟩
      | true =>
        cases hg : g.unmarked with
        | nil =>
          refine ⟨.dropGroup hg, fun r => ?_⟩
          match r with
          | .error f => exact ⟨_, rfl⟩
          | .ok () => exact ⟨.retired, fun b => ⟨.forgot, .report, fun _ => ⟨_, rfl⟩⟩⟩
        | cons m rest =>
          have hhead : g.unmarked.head? = some m := by rw [hg]; rfl
          dsimp only [handOut]
          cases hmode : rules.mode with
          | remove =>
            refine ⟨.remove hmode hhead, fun r => ?_⟩
            match r with
            | .error f => exact ⟨_, rfl⟩
            | .ok () => exact ⟨.report, fun _ => ⟨_, rfl⟩⟩
          | mark =>
            refine ⟨.mark hmode hhead, fun r => ?_⟩
            match r with
            | .error f => exact ⟨_, rfl⟩
            | .ok () => exact ⟨.report, fun _ => ⟨_, rfl⟩⟩

/-- Around a section: from the outside to where its outcome is to be dealt with. -/
theorem conforms_within {k : K} {upshot : α → Upshot K M} {body : Act K M α} (hk : Progress.Concerns rules op k)
    (hbody : ∀ i, Settles rules policy op upshot ⟨k, i⟩ body (.entered ⟨k, i⟩)) :
    Conforms rules policy op (fun φ a => φ = Progress.afterClose (upshot a)) (Program.within k body) .idle :=
  fun i => ⟨.sought hk, .declined, .gaveBack, .opened hk, (hbody i).bind fun _ _ => ⟨.closed, rfl⟩⟩

theorem conforms_accept {m : M} (hop : op = .accept m) :
    Conforms rules policy op (fun φ a => φ.Ends rules op (.accepted a)) (accept rules policy m) .idle := by
  unfold accept
  split
  · rename_i f hf
    exact ⟨m, f, hop, hf, rfl⟩
  · rename_i k hk
    have concerns : Progress.Concerns rules op k := fun m' hm' => by
      cases hop.symm.trans hm'
      exact hk
    refine Conforms.bind (conforms_within concerns fun i => settles_intake hop) ?_
    rintro _ (f | _) rfl
    · exact rfl
    · exact ⟨.count rfl, fun _ => ⟨.announce hop hk, fun _ => rfl⟩⟩

theorem conforms_walk {order : WalkOrder K} (hop : op = .pull order) (ks : List K) :
    Conforms rules policy op (fun φ a => φ.Ends rules op (.pulled a)) (walk rules policy ks) .idle := by
  induction ks with
  | nil => exact ⟨⟨order, hop⟩, rfl⟩
  | cons k rest ih =>
    have concerns : Progress.Concerns rules op k := fun m hm => by cases hop.symm.trans hm
    refine Conforms.bind (conforms_within concerns fun i => settles_visit hop) ?_
    rintro _ (f | v) rfl
    · exact rfl
    · cases v with
      | released m => exact ⟨.count rfl, fun _ => rfl⟩
      | held => exact ih
      | drained => exact ⟨.count rfl, fun _ => ih⟩
      | stale => exact ⟨.count rfl, fun _ => ih⟩

/-- An operation keeps to its phases from the beginning to the end. -/
theorem conforms_ofOperation (rules : Rules K M) (policy : TokenPolicy) (op : Operation K M) :
    Conforms rules policy op (fun φ a => φ.Ends rules op a) (ofOperation rules policy op) .idle := by
  cases op with
  | accept m => exact Conforms.bind (conforms_accept rfl) fun φ a h => h
  | pull order => exact Conforms.bind (fun t => ⟨.looked rfl, conforms_walk rfl _⟩) fun φ a h => h

end Act

/-! ## the section in a phase -/

namespace Progress

/-- The open section in a phase. -/
def stay? : Progress K M → Option (Stay K)
  | .entered h | .refused h _ | .saw h _ | .cleared h _ _ | .vacant h _ => some { held := h }
  | .telling h _ _ fate | .settled h _ fate =>
    if fate = .forgotten then some { held := h, begun := 1, ended := 1 } else some { held := h }
  | .forgetting h _ => some { held := h, begun := 1 }
  | _ => none

variable (rules : Rules K M) (policy : TokenPolicy) (op : Operation K M)

theorem stay?_afterAdd (h : Held K) (r : Outcome StoreError Unit) :
    (afterAdd (M := M) policy h r).stay? = some { held := h } := by
  rcases r with (e | text) | _
  · cases policy <;> rfl
  · rfl
  · rfl

theorem stay?_afterLookup (h : Held K) (e : StoreError) (r : Outcome StoreError (Option (Group K M))) :
    (afterLookup h e r).stay? = some { held := h } := by
  rcases r with (e | text) | (_ | g) <;> rfl

theorem stay?_afterGroup (h : Held K) (r : Outcome StoreError (Option (Group K M))) :
    (afterGroup h r).stay? = some { held := h } := by
  rcases r with f | (_ | g) <;> rfl

theorem stay?_afterClock (h : Held K) (g : Group K M) (now : Instant) :
    (afterClock rules h g now).stay? = some { held := h } := by
  unfold afterClock
  rcases rules.release g now with f | (_ | _) <;> rfl

theorem stay?_afterHandOut (h : Held K) (m : M) (r : Outcome StoreError Unit) :
    (afterHandOut h m r).stay? = some { held := h } := by
  cases r <;> rfl

theorem stay?_afterDrop (h : Held K) (r : Outcome StoreError Unit) :
    (afterDrop (M := M) h r).stay? = some { held := h } := by
  cases r <;> rfl

theorem stay?_afterReport (h : Held K) (u : Upshot K M) (fate : Fate) (event : Event K M) :
    (afterReport policy h u fate).stay? = (telling h event u fate).stay? := by
  cases fate <;> cases policy <;> rfl

theorem stay?_afterForget (h : Held K) (u : Upshot K M) :
    (afterForget h u).stay? = some { held := h, begun := 1, ended := 1 } := by
  unfold afterForget
  split <;> rfl

theorem stay?_afterClose (u : Upshot K M) : (afterClose u).stay? = none := by
  unfold afterClose
  split <;> rfl

theorem stay?_afterCount (u : Upshot K M) : (afterCount u).stay? = none := by
  unfold afterCount
  split <;> rfl

variable {rules policy op}

/-- A call neither opens nor closes a section, nor forgets its key. -/
theorem stay?_afterCall {φ : Progress K M} {c : Request K M} (hc : φ.AllowsCall rules op c) (r : c.Reply) :
    (φ.afterCall rules policy c r).stay? = φ.stay? := by
  cases hc with
  | add => exact stay?_afterAdd policy _ r
  | group => exact stay?_afterGroup _ r
  | lookUp => exact stay?_afterLookup _ _ r
  | clock => exact stay?_afterClock rules _ _ r
  | mark | remove => exact stay?_afterHandOut _ _ r
  | dropGroup => exact stay?_afterDrop _ r
  | report => exact stay?_afterReport policy _ _ _ _
  | count => exact stay?_afterCount _
  | announce => rfl

theorem allows_called {φ : Progress K M} {c : (Request.interface K M).Call} {r : (Request.interface K M).Reply c} :
    φ.Allows rules op (.called c r) ↔ φ.AllowsCall rules op c :=
  ⟨fun | .called call => call, .called⟩

theorem after_called (φ : Progress K M) (c : (Request.interface K M).Call) (r : (Request.interface K M).Reply c) :
    φ.after rules policy (.called c r) = φ.afterCall rules policy c r := by
  cases φ <;> rfl

/-- The phase shows the section that the deeds have opened. -/
theorem stays_after {φ : Progress K M} {d : Deed K (Request.interface K M)} (hd : φ.Allows rules op d) :
    d.stays φ.stay?.toList = (φ.after rules policy d).stay?.toList := by
  cases hd with
  | called hc =>
    rw [after_called, stay?_afterCall hc]
    rfl
  | @closed h u fate =>
    show _ = (afterClose u).stay?.toList
    rw [stay?_afterClose]
    cases fate <;> rfl
  | @forgot h u =>
    show _ = (afterForget h u).stay?.toList
    rw [stay?_afterForget]
    rfl
  | opened | retired | looked | sought | declined | gaveBack => rfl

/-- A section that a deed does not close stays open, and no forget in it is undone. -/
theorem stay_after {φ : Progress K M} {d : Deed K (Request.interface K M)} (hd : φ.Allows rules op d)
    (inside : d ≠ .closed) {s : Stay K} (hs : φ.stay? = some s) :
    ∃ s', (φ.after rules policy d).stay? = some s' ∧ s'.held = s.held ∧ s.ended ≤ s'.ended := by
  have stays : d.stays φ.stay?.toList = (φ.after rules policy d).stay?.toList := stays_after hd
  rw [hs] at stays
  generalize φ.after rules policy d = φ' at stays
  have one (s' : Stay K) (hs' : d.stays (Option.toList (some s)) = [s']) : φ'.stay? = some s' := by
    rw [hs'] at stays
    exact Option.mem_toList.1 (stays ▸ List.mem_singleton.2 rfl)
  cases hd with
  | closed => exact absurd rfl inside
  | opened => cases hs
  | retired => exact ⟨_, one { s with begun := s.begun + 1 } rfl, rfl, Nat.le_refl _⟩
  | forgot => exact ⟨_, one { s with ended := s.ended + 1 } rfl, rfl, Nat.le_succ _⟩
  | _ => exact ⟨s, one s rfl, rfl, Nat.le_refl _⟩

end Progress

end CorrelationBarrier
