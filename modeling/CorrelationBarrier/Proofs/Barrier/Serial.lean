import CorrelationBarrier.Proofs.Barrier.Sections

/-!
# Sections one at a time

Whatever the interleaving, the sections come to what they would have come to one at a time.

* `Operation.body`, `Operation.alone` — the program of a section, and the section run alone;
* `Progress.upshot?` — what a decided section comes to, under given circumstances; `Path.alone_decided` — alone, a
  section comes to what its deciding call has made of it;
* `Section.Takes` — alone, a section comes to the same and takes the store from one state to another;
* `Barrier.Replays` — sections run alone one after the other lead to a store; `Course.serial` keeps such an order of the
  decided sections along the run, to which a section is added by the call that decides it;
* `Barrier.Alone` — the same for whole sections, with their real outcomes.
-/

namespace CorrelationBarrier

variable {K M : Type}

namespace Operation

/-- What an operation does inside the section of a key. -/
def body (rules : Rules K M) (policy : TokenPolicy) : Operation K M → K → Act K M (Upshot K M)
  | .accept m, k => Upshot.intake <$> Act.intake policy k m
  | .pull _, k => Upshot.visit <$> Act.visit rules policy k

/-- A whole section of an operation. -/
def alone (rules : Rules K M) (policy : TokenPolicy) (op : Operation K M) (k : K) : Act K M (Upshot K M) :=
  Program.within k (op.body rules policy k)

end Operation

namespace Act

variable {rules : Rules K M} {policy : TokenPolicy} {op : Operation K M} {φ : Progress K M} {α : Type}
  {upshot : α → Upshot K M} {h : Held K}

theorem Settles.map {p : Act K M α} (settles : Settles rules policy op upshot h p φ) :
    Settles rules policy op id h (upshot <$> p) φ := by
  show Settles rules policy op id h (p.bind fun a => .done (upshot a)) φ
  induction p generalizing φ with
  | done a => exact settles
  | forget _ _ ih => exact ⟨settles.1, fun b => ⟨(settles.2 b).1, ih b (settles.2 b).2⟩⟩
  | call c _ ih => exact ⟨settles.1, fun r => ih r (settles.2 r)⟩
  | _ => exact settles.elim

theorem settles_body (rules : Rules K M) (policy : TokenPolicy) (op : Operation K M) (h : Held K) :
    Settles rules policy op id h (op.body rules policy h.key) (.entered h) := by
  cases op with
  | accept m => exact (settles_intake rfl).map
  | pull order => exact (settles_visit rfl).map

end Act

/-! ## what a decided section comes to -/

namespace Progress

/-- What a section comes to once this is decided. After a refusal it is still open whether the look-up that follows
panics. -/
def upshot? (env : Surroundings) : Progress K M → Option (Upshot K M)
  | .refused _ e =>
    match env.fault .group with
    | some (.panics text) => some (.intake (Outcome.panicked text))
    | _ => some (.intake (Outcome.failed e))
  | .telling _ _ u _ | .vacant _ u | .forgetting _ u | .settled _ u _ => some u
  | _ => none

variable {rules : Rules K M} {policy : TokenPolicy} {op : Operation K M} {φ : Progress K M}

theorem upshot?_afterForget (env : Surroundings) (h : Held K) (u : Upshot K M) :
    (afterForget h u).upshot? env = some u := by
  unfold afterForget
  split <;> rfl

theorem decided_afterForget (h : Held K) (u : Upshot K M) : (afterForget h u).decided = true := by
  unfold afterForget
  split <;> rfl

variable [DecidableEq K] [BEq M]

/-- A call of a decided section changes neither what it comes to nor the store. -/
theorem upshot?_afterCall (policy : TokenPolicy) {c : Request K M} (hc : φ.AllowsCall rules op c)
    (decided : φ.decided = true) {s : Stay K} (hs : φ.stay? = some s) (env : Surroundings) (data : Shared K M) :
    (φ.afterCall rules policy c (data.perform env c).1).upshot? env = φ.upshot? env ∧
      (φ.afterCall rules policy c (data.perform env c).1).decided = true ∧
      (data.perform env c).2.store = data.store := by
  cases hc with
  | add | group | clock | mark | remove | dropGroup => cases decided
  | @lookUp h e =>
    refine and_assoc.1 ⟨?_, Shared.store_perform_group⟩
    show (afterLookup h e (data.perform env (.group h.key)).1).upshot? env = (refused h e).upshot? env ∧
      (afterLookup h e (data.perform env (.group h.key)).1).decided = true
    cases hf : env.fault .group with
    | none =>
      rw [Shared.perform_group_of_no_fault hf]
      cases data.store.group h.key <;> simp [afterLookup, upshot?, hf, Progress.decided]
    | some fault =>
      rw [Shared.perform_group_of_fault hf]
      cases fault <;> simp [afterLookup, upshot?, hf, Progress.decided, Fault.failure]
  | @report h event u fate =>
    show (afterReport policy h u fate).upshot? env = some u ∧ (afterReport policy h u fate).decided = true ∧
      data.store = data.store
    cases fate <;> cases policy <;> exact ⟨rfl, rfl, rfl⟩
  | count | announce => cases hs

/-- The rest of a decided section, run alone, comes to what is decided and leaves the store as it is. -/
theorem run_of_decided {α : Type} {upshot : α → Upshot K M} {h : Held K} {p : Act K M α}
    (settles : Act.Settles rules policy op upshot h p φ) (decided : φ.decided = true) {s : Stay K}
    (hs : φ.stay? = some s) (env : Surroundings) (solo : Solo K (Shared K M)) :
    some (upshot (p.run Shared.service env solo).1) = φ.upshot? env ∧
      (p.run Shared.service env solo).2.data.store = solo.data.store := by
  induction p generalizing φ s solo with
  | done a =>
    obtain ⟨fate, rfl⟩ := settles
    exact ⟨rfl, rfl⟩
  | forget depth next ih =>
    obtain ⟨allowed, rest⟩ := settles
    cases allowed with
    | @retired h' u =>
      -- forgetting touches the table only, whatever the reply
      have run : ∃ b solo', (Program.forget 0 next).run Shared.service env solo = (next b).run Shared.service env solo' ∧
          solo'.data = solo.data := by
        rw [Program.run]
        split
        · exact ⟨false, solo, rfl, rfl⟩
        · exact ⟨_, _, rfl, rfl⟩
      obtain ⟨b, solo', run, same⟩ := run
      have rest : Act.Settles rules policy op upshot h (next b) (afterForget h' u) := (rest b).2
      have comes := ih b rest (decided_afterForget h' u) (stay?_afterForget h' u) solo'
      rw [upshot?_afterForget, same, ← run] at comes
      exact comes
  | call c next ih =>
    obtain ⟨hc, rest⟩ := settles
    obtain ⟨same, decided', store⟩ := upshot?_afterCall policy hc decided hs env solo.data
    have hs' : (φ.afterCall rules policy c (solo.data.perform env c).1).stay? = some s :=
      (stay?_afterCall hc _).trans hs
    obtain ⟨comes, keeps⟩ := ih _ (rest _) decided' hs' { solo with data := (solo.data.perform env c).2 }
    exact ⟨comes.trans same, keeps.trans store⟩
  | _ => exact settles.elim

/-- Nothing that happens in a decided section changes what it comes to. -/
theorem Path.upshot?_after {h : Held K} {es : List (Occurrence K M)} (path : Path rules policy op h es φ)
    {e : Occurrence K M} (allowed : φ.Allows rules op e.deed) (inside : e.deed ≠ .closed)
    (real : ∀ c r, e.deed = .called c r → r = (e.data.perform e.env c).1) (decided : φ.decided = true)
    {env : Surroundings} (suits : e.Suits env) : (φ.after rules policy e.deed).upshot? env = φ.upshot? env := by
  obtain ⟨s, hs, -⟩ := path.stay
  generalize hd : e.deed = d at allowed inside ⊢
  cases allowed with
  | @called _ c r hc =>
    obtain ⟨fault, now⟩ := suits c r hd
    have reply : (e.data.perform e.env c).1 = (e.data.perform env c).1 :=
      (Shared.perform_congr (fun method k hm => (fault method k hm).symm) (fun ht => (now ht).symm) rfl).1
    rw [after_called, real c r hd, reply]
    exact (upshot?_afterCall policy hc decided hs env e.data).1
  | closed => exact absurd rfl inside
  | retired => rfl
  | @forgot h' u => exact upshot?_afterForget env h' u
  | opened | looked | sought | declined | gaveBack => cases hs

omit [DecidableEq K] [BEq M] in
/-- An undecided section goes on with a call. -/
theorem call_of_undecided {d : Deed K (Request.interface K M)} (allowed : φ.Allows rules op d)
    (undecided : φ.decided = false) : ∃ c r, d = .called c r ∧ φ.AllowsCall rules op c := by
  cases allowed with
  | called hc => exact ⟨_, _, rfl, hc⟩
  | _ => cases undecided

omit [DecidableEq K] [BEq M] in
/-- The call of an undecided section does not begin to forget its key. -/
theorem afterCall_ne_forgetting {c : Request K M} (hc : φ.AllowsCall rules op c) (undecided : φ.decided = false)
    (r : c.Reply) (h : Held K) (u : Upshot K M) : φ.afterCall rules policy c r ≠ .forgetting h u := by
  intro hφ
  have stay : φ.stay? = some { held := h, begun := 1 } := by
    rw [← stay?_afterCall hc r, hφ]
    rfl
  cases φ with
  | entered | saw | cleared => cases stay
  | _ => cases undecided

/-- A section alone makes the call that decides it as it was made, and comes to what is decided. -/
theorem Path.alone_decided {h : Held K} {es : List (Occurrence K M)} (path : Path rules policy op h es φ) {α : Type}
    {upshot : α → Upshot K M} {body : Act K M α} (settles : Act.Settles rules policy op upshot h body (.entered h))
    {e : Occurrence K M} (allowed : φ.Allows rules op e.deed) (inside : e.deed ≠ .closed)
    (real : ∀ c r, e.deed = .called c r → r = (e.data.perform e.env c).1) (undecided : φ.decided = false)
    (decided : (φ.after rules policy e.deed).decided = true) (knows : φ.Knows rules policy e.data.store)
    {c : Request K M} {reply : c.Reply} (hd : e.deed = .called c reply) {env : Surroundings}
    (suits : ∀ x ∈ es ++ [e], x.Suits env) {s : Solo K (Shared K M)} (hs : s.data.store = e.data.store) :
    some (upshot (body.run Shared.service env s).1) = (φ.after rules policy e.deed).upshot? env ∧
      (body.run Shared.service env s).2.data.store = (e.data.perform e.env c).2.store := by
  obtain ⟨p, -, rest, alone⟩ := path.replay settles
  obtain ⟨q, does, rest'⟩ := rest.does allowed inside
  obtain ⟨s₁, hs₁, run⟩ := alone undecided env (fun x hx => suits x (List.mem_append_left _ hx)) s (hs ▸ knows)
  have outside : ∀ h' u, φ.after rules policy e.deed ≠ .forgetting h' u := by
    rw [hd] at allowed ⊢
    rw [after_called]
    exact afterCall_ne_forgetting (allows_called.1 allowed) undecided reply
  have settles' := rest'.settles outside
  obtain ⟨stay, hstay, -⟩ := (path.on e allowed inside real).stay
  rw [hd] at does
  cases does with
  | @call c next reply =>
    obtain ⟨fault, now⟩ := suits e List.mem_concat_self c reply hd
    obtain ⟨answer, effect⟩ := Shared.perform_congr fault now (hs₁.trans hs)
    have turn : (Program.call c next).run Shared.service env s₁ =
        (next reply).run Shared.service env { s₁ with data := (s₁.data.perform env c).2 } :=
      congrArg (fun r => (next r).run Shared.service env _) (answer.trans (real c reply hd).symm)
    obtain ⟨comes, keeps⟩ := run_of_decided settles' decided hstay env
      { s₁ with data := (s₁.data.perform env c).2 }
    rw [run, turn]
    exact ⟨comes, keeps.trans effect⟩

end Progress

theorem Program.run_within {I : Interface} {α σ ε : Type} [DecidableEq K] (service : Service I ε σ) (env : ε) (k : K)
    (body : Program K I α) (s : Solo K σ) :
    ∃ s₀, s₀.data = s.data ∧ ((within k body).run service env s).1 = (body.run service env s₀).1 ∧
      ((within k body).run service env s).2.data = (body.run service env s₀).2.data := by
  rcases hacq : s.table.acquire k with ⟨i, t⟩
  refine ⟨{ s with table := t.hold i, sections := ⟨k, i⟩ :: s.sections }, rfl, ?_⟩
  rw [within, run, hacq]
  dsimp only
  rw [run_bind]
  generalize body.run service env _ = out
  rw [run]
  split <;> exact ⟨rfl, rfl⟩

variable [DecidableEq K] [BEq M]

/-! ## a section alone -/

/-- Run alone from a store `s`, under whatever circumstances such as its calls have met, a section comes to what is
decided in it and leaves the store `s'`. -/
def Section.Takes (b : Barrier K M) (ops : List (Operation K M)) (r : Section K M) (s s' : GroupStore K M) : Prop :=
  ∃ op, ops[r.thread]? = some op ∧ ∀ env, (∀ e ∈ r.events, e.Suits env) → ∀ solo : Solo K (Shared K M),
    solo.data.store = s →
    some ((op.alone b.rules b.table.policy r.held.key).run Shared.service env solo).1 = (b.progressIn r).upshot? env ∧
    ((op.alone b.rules b.table.policy r.held.key).run Shared.service env solo).2.data.store = s'

variable {b : Barrier K M} {ops : List (Operation K M)} {hist : List (Occurrence K M)} {r : Section K M}
  {e : Occurrence K M}

omit [DecidableEq K] [BEq M] in
theorem Section.map_note {rs : List (Section K M)} (same : ∀ r ∈ rs, r.note e = r) : rs.map (·.note e) = rs :=
  (List.map_congr_left same).trans (List.map_id' rs)

omit [DecidableEq K] [BEq M] in
theorem Section.thread_of_decided (undecided : (b.progressIn r).decided = false)
    (decided : (b.progressIn (r.note e)).decided = true) : r.thread = e.thread := by
  by_contra hne
  rw [Section.note_other fun h => absurd h hne, undecided] at decided
  cases decided

/-- What is noted in a decided section does not change how it fares alone. -/
theorem Section.Takes.note {s s' : GroupStore K M} (takes : r.Takes b ops s s') (fits : r.Fits b ops hist)
    (decided : (b.progressIn r).decided = true) (occurs : b.Occurs ops hist e) : (r.note e).Takes b ops s s' := by
  rcases r.note_cases e with ⟨-, note⟩ | ⟨-, -, -, note⟩ | ⟨ht, ho, hd, note⟩
  · rw [note]
    exact takes
  · rw [note]
    exact takes
  · rw [note]
    obtain ⟨op, hop, alone⟩ := takes
    obtain ⟨op', -, path, allowed⟩ := fits.allowed occurs ht ho
    refine ⟨op, hop, fun env suits solo hs => ?_⟩
    obtain ⟨comes, leads⟩ := alone env (fun e he => suits e (List.mem_append_left _ he)) solo hs
    refine ⟨comes.trans ?_, leads⟩
    rw [Barrier.progressIn_event]
    exact (path.upshot?_after allowed hd occurs.real decided (suits e List.mem_concat_self)).symm

/-- The call that decides a section: alone, the section makes the same call on the same store. -/
theorem Section.Fits.takes (fits : r.Fits b ops hist) (occurs : b.Occurs ops hist e)
    (knows : (b.progressIn r).Knows b.rules b.table.policy e.data.store)
    (undecided : (b.progressIn r).decided = false) (decided : (b.progressIn (r.note e)).decided = true)
    {c : Request K M} {reply : c.Reply} (hd : e.deed = .called c reply) :
    (r.note e).Takes b ops e.data.store (e.data.perform e.env c).2.store := by
  rcases r.note_cases e with ⟨-, note⟩ | ⟨-, -, hc, -⟩ | ⟨ht, ho, inside, note⟩
  · rw [note, undecided] at decided
    cases decided
  · rw [hd] at hc
    cases hc
  · rw [note] at decided ⊢
    rw [Barrier.progressIn_event] at decided
    obtain ⟨op, hop, path, allowed⟩ := fits.allowed occurs ht ho
    refine ⟨op, hop, fun env suits solo hs => ?_⟩
    obtain ⟨s₀, hs₀, comes, leads⟩ := Program.run_within Shared.service env r.held.key
      (op.body b.rules b.table.policy r.held.key) solo
    obtain ⟨upshot, store⟩ := path.alone_decided (Act.settles_body b.rules b.table.policy op r.held) allowed inside
      occurs.real undecided decided knows hd suits ((congrArg Shared.store hs₀).trans hs)
    refine ⟨?_, ?_⟩
    · rw [Barrier.progressIn_event, ← upshot]
      exact congrArg some comes
    · exact (congrArg Shared.store leads).trans store

/-! ## sections in another order -/

/-- The same sections in another order, those of one key in the order in which they were. -/
structure Reordered (order rs : List (Section K M)) : Prop where
  perm : order.Perm rs
  keys : ∀ k, order.filter (·.held.key = k) = rs.filter (·.held.key = k)

namespace Reordered

omit [BEq M]

theorem note {order rs : List (Section K M)} (same : Reordered order rs) (e : Occurrence K M) :
    Reordered (order.map (·.note e)) (rs.map (·.note e)) := by
  refine ⟨same.perm.map _, fun k => ?_⟩
  rw [List.filter_map, List.filter_map]
  have keys := congrArg (List.map (·.note e)) (same.keys k)
  simpa only [Function.comp_def, Section.held_note] using keys

/-- A section may come last if none of its key comes later. -/
theorem last {order before after : List (Section K M)} (same : Reordered order (before ++ after)) (r : Section K M)
    (newest : ∀ r' ∈ after, r'.held.key ≠ r.held.key) : Reordered (order ++ [r]) (before ++ r :: after) := by
  refine ⟨?_, fun k => ?_⟩
  · calc List.Perm (order ++ [r]) (r :: order) := List.perm_append_singleton r order
      List.Perm _ (r :: (before ++ after)) := same.perm.cons r
      List.Perm _ (before ++ r :: after) := List.perm_middle.symm
  · rw [List.filter_append, same.keys, List.filter_append, List.filter_append, List.filter_cons]
    by_cases hk : r.held.key = k
    · have none : after.filter (fun r' => r'.held.key = k) = [] :=
        List.filter_eq_nil_iff.2 fun r' hr' h => newest r' hr' ((of_decide_eq_true h).trans hk.symm)
      simp [none, hk]
    · simp [hk]

end Reordered

/-- Run alone one after the other, the sections lead to a store. -/
inductive Barrier.Replays (b : Barrier K M) (ops : List (Operation K M)) :
    List (Section K M) → GroupStore K M → Prop where
  | nothing : Replays b ops [] b.store
  | one {rs s r s'} (before : Replays b ops rs s) (takes : r.Takes b ops s s') : Replays b ops (rs ++ [r]) s'

namespace Barrier

theorem Replays.start {rs : List (Section K M)} {s : GroupStore K M} (replays : b.Replays ops rs s)
    (op : Operation K M) : b.Replays (ops ++ [op]) rs s := by
  induction replays with
  | nothing => exact .nothing
  | one _ takes ih =>
    obtain ⟨op', hop, alone⟩ := takes
    refine ih.one ⟨op', ?_, alone⟩
    rw [List.getElem?_append_left (List.getElem?_eq_some_iff.1 hop).1]
    exact hop

theorem Replays.note {rs : List (Section K M)} {s : GroupStore K M} (replays : b.Replays ops rs s)
    (occurs : b.Occurs ops hist e)
    (settled : ∀ r ∈ rs, r.Fits b ops hist ∧ (b.progressIn r).decided = true) :
    b.Replays ops (rs.map (·.note e)) s := by
  induction replays with
  | nothing => exact .nothing
  | one _ takes ih =>
    obtain ⟨fits, decided⟩ := settled _ List.mem_concat_self
    rw [List.map_append]
    exact (ih fun r hr => settled r (List.mem_append_left _ hr)).one (takes.note fits decided occurs)

/-- The sections of a chronicle in which everything is decided. -/
def decidedSections (b : Barrier K M) (hist : List (Occurrence K M)) : List (Section K M) :=
  (sections hist).filter fun r => (b.progressIn r).decided

omit [DecidableEq K] [BEq M] in
theorem decidedSections_append (b : Barrier K M) (hist : List (Occurrence K M)) (e : Occurrence K M) :
    b.decidedSections (hist ++ [e]) =
      ((sections hist).map (·.note e)).filter fun r => (b.progressIn r).decided := by
  rw [decidedSections, sections_append, List.filter_append, List.append_right_eq_self]
  refine List.filter_eq_nil_iff.2 fun r hr => ?_
  obtain ⟨h, -, rfl⟩ := mem_openedBy hr
  exact Bool.false_ne_true

namespace Course

variable {m : Threads K M}

/-- An occurrence that decides no section leaves the store as it is. -/
theorem store_of_none (course : b.Course ops hist m) (occurs : b.Occurs ops hist e) {c : Request K M} {reply : c.Reply}
    (hd : e.deed = .called c reply)
    (none : ∀ r ∈ sections hist, (b.progressIn r).decided = false → (b.progressIn (r.note e)).decided = false) :
    (e.data.perform e.env c).2.store = e.data.store := by
  cases hm : Request.method? c with
  | none =>
    cases c with
    | clock | count | report => rfl
    | _ => cases hm
  | some call =>
    obtain ⟨h, hs, -⟩ := stay_of_call occurs ⟨c, reply, call.1, hd, hm⟩
    obtain ⟨r, hr, ht, ho⟩ := course.section_of_stay hs
    obtain ⟨op, -, path, allowed⟩ := (course.sections_fit r hr).allowed occurs ht ho
    have inside : e.deed ≠ .closed := by
      rw [hd]
      nofun
    cases hdecided : (b.progressIn r).decided with
    | true =>
      obtain ⟨s, hs, -⟩ := path.stay
      rw [hd] at allowed
      exact (Progress.upshot?_afterCall b.table.policy (Progress.allows_called.1 allowed) hdecided hs e.env e.data).2.2
    | false =>
      have undecided := none r hr hdecided
      rw [Section.note_event ht ho inside, progressIn_event] at undecided
      rcases path.undecided_after allowed inside occurs.real undecided with ⟨h', g, -, hd', -⟩ | ⟨h', g, now, -, hd', -⟩
      · cases hd.symm.trans hd'
        exact Shared.store_perform_group
      · cases hd.symm.trans hd'
        rfl

theorem decidedSections_of_none (course : b.Course ops hist m) (occurs : b.Occurs ops hist e)
    (none : ∀ r ∈ sections hist, (b.progressIn r).decided = false → (b.progressIn (r.note e)).decided = false) :
    b.decidedSections (hist ++ [e]) = (b.decidedSections hist).map (·.note e) := by
  rw [decidedSections_append, decidedSections, List.filter_map]
  refine congrArg _ (List.filter_congr fun r hr => ?_)
  show (b.progressIn (r.note e)).decided = (b.progressIn r).decided
  cases hdecided : (b.progressIn r).decided with
  | true => exact (course.sections_fit r hr).decided_note occurs hdecided
  | false => exact none r hr hdecided

/-- The section that an occurrence decides joins the decided ones. It is the last one of its key, and nothing happens in
the others. -/
theorem decidedSections_of_new (course : b.Course ops hist m) (fresh : b.table = .new .validated)
    (hr : r ∈ sections hist) (undecided : (b.progressIn r).decided = false)
    (decided : (b.progressIn (r.note e)).decided = true) :
    ∃ before after, b.decidedSections hist = before ++ after ∧
      b.decidedSections (hist ++ [e]) = before ++ r.note e :: after ∧
      (∀ r' ∈ before ++ after, r'.note e = r') ∧ ∀ r' ∈ after, r'.held.key ≠ r.held.key := by
  have ordered := course.ordered fresh
  have ho : r.closed = false := ((course.sections_fit r hr).stay_of_undecided undecided).1
  have ht : r.thread = e.thread := Section.thread_of_decided undecided decided
  have all : b.decidedSections (hist ++ [e]) = _ := b.decidedSections_append hist e
  have old : b.decidedSections hist = (sections hist).filter _ := rfl
  obtain ⟨before, after, hrs⟩ := List.append_of_mem hr
  rw [hrs] at ordered all old
  obtain ⟨-, later, earlier⟩ := List.pairwise_append.1 ordered
  have later := (List.pairwise_cons.1 later).1
  have alone (r' : Section K M) (hr' : r' ∈ before ++ after) : r'.note e = r' := by
    refine Section.note_other fun ht' => ?_
    rcases List.mem_append.1 hr' with hr' | hr'
    · exact (earlier r' hr' r (List.mem_cons_self ..)).1 (ht'.trans ht.symm)
    · have hc := (later r' hr').1 (ht.trans ht'.symm)
      rw [ho] at hc
      cases hc
  have beforeSame : before.map (·.note e) = before :=
    Section.map_note fun r' hr' => alone r' (List.mem_append_left _ hr')
  have afterSame : after.map (·.note e) = after :=
    Section.map_note fun r' hr' => alone r' (List.mem_append_right _ hr')
  refine ⟨before.filter fun r => (b.progressIn r).decided, after.filter fun r => (b.progressIn r).decided, ?_, ?_, ?_,
    ?_⟩
  · rw [old, List.filter_append, List.filter_cons_of_neg (by simp [undecided])]
  · rw [all, List.map_append, List.map_cons, beforeSame, afterSame, List.filter_append,
      List.filter_cons_of_pos (by simp [decided])]
  · intro r' hr'
    rw [← List.filter_append] at hr'
    exact alone r' (List.mem_filter.1 hr').1
  · intro r' hr' hk
    have hdecided := (later r' (List.mem_filter.1 hr').1).2 hk.symm
    rw [undecided] at hdecided
    cases hdecided

/-- Along every run, the decided sections have an order in which, alone one after the other, they lead to the store. -/
theorem serial (course : b.Course ops hist m) (fresh : b.table = .new .validated) :
    ∃ order, Reordered order (b.decidedSections hist) ∧ b.Replays ops order m.data.store := by
  induction course with
  | here => exact ⟨[], ⟨.nil, fun _ => rfl⟩, .nothing⟩
  | start op _ ih =>
    obtain ⟨order, same, replays⟩ := ih
    exact ⟨order, same, replays.start op⟩
  | @step ops hist m i env t d table data t' before thread op hop allowed step ih =>
    obtain ⟨order, same, replays⟩ := ih
    have occurs : b.Occurs ops hist ⟨i, env, m.data, d⟩ := occurs hop allowed step
    have settled (r : Section K M) (hr : r ∈ order) : r.Fits b ops hist ∧ (b.progressIn r).decided = true := by
      obtain ⟨hr, decided⟩ := List.mem_filter.1 (same.perm.mem_iff.1 hr)
      exact ⟨before.sections_fit r hr, decided⟩
    have replays : b.Replays ops (order.map (·.note ⟨i, env, m.data, d⟩)) m.data.store := replays.note occurs settled
    by_cases new : ∃ r ∈ sections hist, (b.progressIn r).decided = false ∧
        (b.progressIn (r.note ⟨i, env, m.data, d⟩)).decided = true
    · obtain ⟨r, hr, undecided, decided⟩ := new
      obtain ⟨earlier, later, old, all, alone, newest⟩ := before.decidedSections_of_new fresh hr undecided decided
      rw [old] at same
      rw [Section.map_note fun r' hr' => alone r' (same.perm.mem_iff.1 hr')] at replays
      have fits := before.sections_fit r hr
      have ho : r.closed = false := (fits.stay_of_undecided undecided).1
      obtain ⟨op', -, -, allowed'⟩ := fits.allowed occurs (Section.thread_of_decided undecided decided) ho
      have knows : (b.progressIn r).Knows b.rules b.table.policy m.data.store :=
        (fits.underway ho).1 ▸ before.knows fresh r.thread
      obtain ⟨c, reply, hd, -⟩ := Progress.call_of_undecided allowed' undecided
      refine ⟨order ++ [r.note ⟨i, env, m.data, d⟩], ?_, ?_⟩
      · rw [all]
        refine same.last _ fun r' hr' => ?_
        rw [Section.held_note]
        exact newest r' hr'
      · have takes := fits.takes occurs knows undecided decided hd
        rcases step.call_or_not with ⟨c', rfl, rfl⟩ | ⟨hn, -⟩
        · cases hd
          exact replays.one takes
        · exact absurd hd (hn c reply)
    · have none : ∀ r ∈ sections hist, (b.progressIn r).decided = false →
          (b.progressIn (r.note ⟨i, env, m.data, d⟩)).decided = false := fun r hr undecided =>
        Bool.eq_false_iff.2 fun decided => new ⟨r, hr, undecided, decided⟩
      refine ⟨_, before.decidedSections_of_none occurs none ▸ same.note _, ?_⟩
      rcases step.call_or_not with ⟨c, rfl, rfl⟩ | ⟨-, rfl⟩
      · have same := before.store_of_none occurs rfl none
        exact same ▸ replays
      · exact replays

end Course

/-! ## whole sections -/

/-- Run on the barrier one after the other, with nobody else around, whole sections lead to a barrier, and each comes to
what its own deeds have come to. -/
inductive Alone (b : Barrier K M) (ops : List (Operation K M)) : List (Section K M) → Barrier K M → Prop where
  | nothing : Alone b ops [] b
  | one {rs b' r op u} (before : Alone b ops rs b') (operation : ops[r.thread]? = some op)
    (outcome : (op.body b.rules b.table.policy r.held.key).Follows r.deeds (.done u))
    (alone : (b'.runAct r.surroundings (op.alone b.rules b.table.policy r.held.key)).1 = u) :
    Alone b ops (rs ++ [r]) (b'.runAct r.surroundings (op.alone b.rules b.table.policy r.held.key)).2

end Barrier

/-- The deeds of a closed section have brought its program to an answer, and that is what was decided. -/
theorem Section.Fits.outcome (fits : r.Fits b ops hist) (hc : r.closed = true) : ∃ op u, ops[r.thread]? = some op ∧
    (op.body b.rules b.table.policy r.held.key).Follows r.deeds (.done u) ∧
    (∀ e ∈ r.events, e.Suits r.surroundings) ∧ (b.progressIn r).upshot? r.surroundings = some u := by
  obtain ⟨op, hop, path⟩ := fits.path
  obtain ⟨u, fate, hφ⟩ := fits.finished hc
  obtain ⟨p, follows, rest, -⟩ := path.replay (Act.settles_body b.rules b.table.policy op r.held)
  refine ⟨op, u, hop, ?_, path.suits, by rw [hφ]; rfl⟩
  rw [hφ] at rest
  have settles := rest.settles nofun
  cases p with
  | done a =>
    obtain ⟨fate', same⟩ := settles
    cases same
    exact follows
  | forget | call => cases settles.1
  | _ => exact settles.elim

namespace Barrier

theorem Replays.alone {order : List (Section K M)} {s : GroupStore K M} (replays : b.Replays ops order s)
    (whole : ∀ r ∈ order, r.Fits b ops hist ∧ r.closed = true) : ∃ b', b.Alone ops order b' ∧ b'.store = s := by
  induction replays with
  | nothing => exact ⟨b, .nothing, rfl⟩
  | @one rs s r s' _ takes ih =>
    obtain ⟨b', alone, hb'⟩ := ih fun r hr => whole r (List.mem_append_left _ hr)
    obtain ⟨fits, hc⟩ := whole r List.mem_concat_self
    obtain ⟨op, u, hop, outcome, suits, comes⟩ := fits.outcome hc
    obtain ⟨op', hop', takes⟩ := takes
    rw [hop] at hop'
    cases hop'
    obtain ⟨same, store⟩ := takes r.surroundings suits { table := b'.table, data := b'.shared } hb'
    exact ⟨_, alone.one hop outcome (Option.some.inj (same.trans comes)), store⟩

/-- In a state in which no thread is in a section, all sections are closed. -/
theorem Course.closed_of_quiet {m : Threads K M} (course : b.Course ops hist m)
    (quiet : ∀ t ∈ m.threads, t.sections = []) (hr : r ∈ sections hist) : r.closed = true := by
  by_contra ho
  have fits := course.sections_fit r hr
  obtain ⟨op, -, path⟩ := fits.path
  obtain ⟨s, hs, -⟩ := path.stay
  rw [← (fits.underway (Bool.eq_false_iff.2 ho)).1] at hs
  cases ht : m.threads[r.thread]? with
  | none =>
    rw [course.progress_of_none ht] at hs
    cases hs
  | some t =>
    have mem := course.mem_sections ht hs
    rw [quiet t (List.mem_of_getElem? ht)] at mem
    cases mem

/-- **Sections are serialisable.** In every run of a validated barrier on a store of any capacity:

* between two calls that a thread makes on the store in one section, which are for one key, no other thread calls the
  store for this key;
* whenever no thread is in a section, all sections so far have an order, for each key the order in which they were
  entered, in which they come to the same alone, one after the other, and lead to the same store;
* a group that a section alters is what the section was shown when it began, and what its release rule let go. -/
theorem sections_serialisable (rules : Rules K M) (capacity : Nat) (turns : List (Turn K M)) :
    let b := Barrier.new rules .validated capacity
    let m := b.play turns
    let hist := b.chronicle turns
    (∀ pre e mid e' post k k', hist = pre ++ e :: (mid ++ e' :: post) → e.CallsOn k → e'.CallsOn k' →
      e'.thread = e.thread → (∀ x ∈ mid, x.thread = e.thread → x.deed ≠ .closed) →
      k' = k ∧ ∀ x ∈ mid, x.CallsOn k → x.thread = e.thread) ∧
    ((∀ t ∈ m.threads, t.sections = []) → ∃ order b', Reordered order (sections hist) ∧
      b.Alone (operations turns) order b' ∧ b'.store = m.data.store) ∧
    ∀ pre e post k, hist = pre ++ e :: post → e.Alters k → ∃ ds i g now,
      deedsOf e.thread pre = ds ++ [.opened ⟨k, i⟩, .called (.group k) (.ok (some g)), .called .clock now] ∧
      rules.release g now = .ok true ∧ e.data.store.group k = some g := by
  intro b m hist
  have course : b.Course (operations turns) hist m := b.course_play turns
  refine ⟨fun pre e mid e' post k k' hh => course.undisturbed rfl hh, fun quiet => ?_,
    fun pre e post k hh => course.snapshot rfl hh⟩
  have closed (r : Section K M) (hr : r ∈ sections hist) : r.closed = true := course.closed_of_quiet quiet hr
  have all : b.decidedSections hist = sections hist := by
    refine List.filter_eq_self.2 fun r hr => ?_
    obtain ⟨u, fate, hφ⟩ := (course.sections_fit r hr).finished (closed r hr)
    rw [hφ]
    rfl
  obtain ⟨order, same, replays⟩ := course.serial rfl
  rw [all] at same
  obtain ⟨b', alone, store⟩ := replays.alone fun r hr =>
    have hr := same.perm.mem_iff.1 hr
    ⟨course.sections_fit r hr, closed r hr⟩
  exact ⟨order, b', same, alone, store⟩

/-- Three messages of two keys and a pull on its way with them: four sections, in the order in which they were
entered. -/
example :
    let b : Barrier Nat Nat := Barrier.new ⟨fun m => .ok (m % 2), .always, .mark⟩ .validated 0
    let turns := [.start (.accept 7), .start (.accept 4), .start (.accept 9), .start (.pull .asListed)] ++
      (List.range 80).map fun i => .advance (i % 4) {}
    (sections (b.chronicle turns)).map (fun r => (r.thread, r.held.key, r.closed)) =
      [(0, 1, true), (1, 0, true), (2, 1, true), (3, 1, true)] := by
  rfl

end Barrier

end CorrelationBarrier
