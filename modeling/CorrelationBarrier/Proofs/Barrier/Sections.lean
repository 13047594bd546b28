import CorrelationBarrier.Proofs.Barrier.Path

/-!
# The sections of a chronicle

* `Section`, `sections` — the sections of a chronicle in the order in which they were entered, with what has happened in
  each;
* `Section.Fits` — a section is a way through the phases, and while it is open its thread is where the way has led;
* `Course.ordered` — a thread opens a section after closing the last one, and a section of a key is opened after
  everything is decided in the ones before;
* `Course.undisturbed` — from one call of a section to another, no other thread calls the store for the same key.
-/

namespace CorrelationBarrier

variable {K M : Type}

/-- A section: the thread that is in it, its key and token, and what has happened in it since it was opened. -/
structure Section (K M : Type) where
  thread : Nat
  held : Held K
  events : List (Occurrence K M) := []
  closed : Bool := false

namespace Section

/-- A section after one more occurrence, which concerns it if it is of the same thread and the section is open. -/
def note (e : Occurrence K M) (r : Section K M) : Section K M :=
  if r.thread = e.thread ∧ r.closed = false then
    match e.deed with
    | .closed => { r with closed := true }
    | _ => { r with events := r.events ++ [e] }
  else r

/-- The section that an occurrence opens. -/
def openedBy (e : Occurrence K M) : List (Section K M) :=
  match e.deed with
  | .opened h => [{ thread := e.thread, held := h }]
  | _ => []

/-- What the thread has done in a section. -/
def deeds (r : Section K M) : List (Deed K (Request.interface K M)) := r.events.map (·.deed)

/-- The circumstances of the calls in a section. -/
def surroundings (r : Section K M) : Surroundings := surroundingsOf r.events

theorem note_other {e : Occurrence K M} {r : Section K M} (h : r.thread = e.thread → r.closed = true) :
    r.note e = r := by
  refine if_neg fun hc => ?_
  rw [h hc.1] at hc
  cases hc.2

theorem note_closed {e : Occurrence K M} {r : Section K M} (ht : r.thread = e.thread) (ho : r.closed = false)
    (hd : e.deed = .closed) : r.note e = { r with closed := true } := by
  rw [note, if_pos ⟨ht, ho⟩, hd]

theorem note_event {e : Occurrence K M} {r : Section K M} (ht : r.thread = e.thread) (ho : r.closed = false)
    (hd : e.deed ≠ .closed) : r.note e = { r with events := r.events ++ [e] } := by
  rw [note, if_pos ⟨ht, ho⟩]
  split
  · exact absurd ‹_› hd
  · rfl

/-- Noting an occurrence leaves a section alone, closes it, or adds the occurrence to it. -/
theorem note_cases (e : Occurrence K M) (r : Section K M) :
    (r.thread = e.thread → r.closed = true) ∧ r.note e = r ∨
    r.thread = e.thread ∧ r.closed = false ∧ e.deed = .closed ∧ r.note e = { r with closed := true } ∨
    r.thread = e.thread ∧ r.closed = false ∧ e.deed ≠ .closed ∧ r.note e = { r with events := r.events ++ [e] } := by
  by_cases ht : r.thread = e.thread
  · by_cases ho : r.closed = true
    · exact .inl ⟨fun _ => ho, note_other fun _ => ho⟩
    · have ho : r.closed = false := Bool.eq_false_iff.2 ho
      right
      by_cases hd : e.deed = .closed
      · exact .inl ⟨ht, ho, hd, note_closed ht ho hd⟩
      · exact .inr ⟨ht, ho, hd, note_event ht ho hd⟩
  · exact .inl ⟨fun h => absurd h ht, note_other fun h => absurd h ht⟩

theorem thread_note (e : Occurrence K M) (r : Section K M) : (r.note e).thread = r.thread := by
  rcases r.note_cases e with ⟨-, h⟩ | ⟨-, -, -, h⟩ | ⟨-, -, -, h⟩ <;> rw [h]

theorem held_note (e : Occurrence K M) (r : Section K M) : (r.note e).held = r.held := by
  rcases r.note_cases e with ⟨-, h⟩ | ⟨-, -, -, h⟩ | ⟨-, -, -, h⟩ <;> rw [h]

theorem closed_note {e : Occurrence K M} {r : Section K M} (h : r.closed = true) : (r.note e).closed = true := by
  rw [note_other fun _ => h, h]

end Section

/-- The sections of a chronicle, in the order in which they were entered. -/
def sections (hist : List (Occurrence K M)) : List (Section K M) :=
  hist.foldl (fun rs e => rs.map (·.note e) ++ Section.openedBy e) []

theorem sections_append (hist : List (Occurrence K M)) (e : Occurrence K M) :
    sections (hist ++ [e]) = (sections hist).map (·.note e) ++ Section.openedBy e := by
  simp [sections]

theorem mem_openedBy {e : Occurrence K M} {r : Section K M} (h : r ∈ Section.openedBy e) :
    ∃ h, e.deed = .opened h ∧ r = { thread := e.thread, held := h } := by
  unfold Section.openedBy at h
  split at h
  · exact ⟨_, ‹_›, List.mem_singleton.1 h⟩
  · cases h

namespace Barrier

variable (b : Barrier K M)

/-- How far a section is. -/
def progressIn (r : Section K M) : Progress K M :=
  r.deeds.foldl (Progress.after b.rules b.table.policy) (.entered r.held)

variable {b}

theorem progressIn_event (r : Section K M) (e : Occurrence K M) :
    b.progressIn { r with events := r.events ++ [e] } = (b.progressIn r).after b.rules b.table.policy e.deed := by
  simp [progressIn, Section.deeds]

end Barrier

variable [DecidableEq K] [BEq M]

/-! ## what may happen next -/

/-- What may happen next after `hist`: a deed that the progress of its thread allows, and if it is a call, it gets the
reply that the data give. -/
structure Barrier.Occurs (b : Barrier K M) (ops : List (Operation K M)) (hist : List (Occurrence K M))
    (e : Occurrence K M) : Prop where
  allowed : ∃ op, ops[e.thread]? = some op ∧ (b.progress e.thread hist).Allows b.rules op e.deed
  real : ∀ c r, e.deed = .called c r → r = (e.data.perform e.env c).1

namespace Barrier.Course

variable {b : Barrier K M} {ops : List (Operation K M)} {hist : List (Occurrence K M)} {m : Threads K M}

theorem occurs {i : Nat} {env : Surroundings} {t t' : Thread K (Request.interface K M) (Answer K M)}
    {d : Deed K (Request.interface K M)} {table : LockTable K} {data : Shared K M} {op : Operation K M}
    (operation : ops[i]? = some op) (allowed : (b.progress i hist).Allows b.rules op d)
    (step : t.Step Shared.service env m.table m.data d table data t') : b.Occurs ops hist ⟨i, env, m.data, d⟩ :=
  ⟨⟨op, operation, allowed⟩, fun _ _ => step.reply_eq⟩

/-- At every point of a chronicle a run was in a state in which what comes next could happen. -/
theorem at_point {pre post : List (Occurrence K M)} {e : Occurrence K M}
    (course : b.Course ops (pre ++ e :: post) m) :
    ∃ ops' m', b.Course ops' pre m' ∧ e.data = m'.data ∧ b.Occurs ops' pre e := by
  generalize hh : pre ++ e :: post = hist at course
  induction course generalizing post with
  | here => cases pre <;> cases hh
  | start _ _ ih => exact ih hh
  | @step ops hist m i env t d table data t' before thread op hop allowed step ih =>
    rcases List.eq_nil_or_concat post with rfl | ⟨post, e', rfl⟩
    · obtain ⟨rfl, he⟩ := List.append_inj' hh rfl
      cases he
      exact ⟨ops, m, before, rfl, occurs hop allowed step⟩
    · have hcut : (pre ++ e :: post) ++ [e'] = hist ++ [⟨i, env, m.data, d⟩] := by
        rw [← hh]
        simp
      exact ih (List.append_inj_left' hcut rfl)

end Barrier.Course

/-! ## sections fit the phases -/

/-- A section is a way through the phases, of an operation that has to do with its key. While it is open, its thread is
where the way has led; when it is closed, nothing is left to do in it. -/
structure Section.Fits (b : Barrier K M) (ops : List (Operation K M)) (hist : List (Occurrence K M)) (r : Section K M) :
    Prop where
  path : ∃ op, ops[r.thread]? = some op ∧
    Progress.Path b.rules b.table.policy op r.held r.events (b.progressIn r)
  underway : r.closed = false → b.progress r.thread hist = b.progressIn r ∧
    ∃ ds, deedsOf r.thread hist = ds ++ .opened r.held :: r.deeds
  finished : r.closed = true → ∃ u fate, b.progressIn r = .settled r.held u fate

namespace Section.Fits

variable {b : Barrier K M} {ops : List (Operation K M)} {hist : List (Occurrence K M)} {r : Section K M}
  {e : Occurrence K M}

/-- What occurs in the thread of an open section is allowed in the section. -/
theorem allowed (fits : r.Fits b ops hist) (occurs : b.Occurs ops hist e) (ht : r.thread = e.thread)
    (ho : r.closed = false) : ∃ op, ops[r.thread]? = some op ∧
      Progress.Path b.rules b.table.policy op r.held r.events (b.progressIn r) ∧
      (b.progressIn r).Allows b.rules op e.deed := by
  obtain ⟨op, hop, path⟩ := fits.path
  obtain ⟨op', hop', allowed⟩ := occurs.allowed
  rw [← ht, hop] at hop'
  cases hop'
  rw [← ht, (fits.underway ho).1] at allowed
  exact ⟨op, hop, path, allowed⟩

theorem note (fits : r.Fits b ops hist) (occurs : b.Occurs ops hist e) : (r.note e).Fits b ops (hist ++ [e]) := by
  rcases r.note_cases e with ⟨other, note⟩ | ⟨ht, ho, hd, note⟩ | ⟨ht, ho, hd, note⟩
  · rw [note]
    refine ⟨fits.path, fun ho => ?_, fits.finished⟩
    have hne : e.thread ≠ r.thread := fun h => by
      rw [other h.symm] at ho
      cases ho
    rw [Barrier.progress_append, if_neg hne, deedsOf_append, deedsOf_one, if_neg hne, List.append_nil]
    exact fits.underway ho
  · rw [note]
    refine ⟨fits.path, nofun, fun _ => ?_⟩
    -- only a section that is settled closes
    obtain ⟨op, -, path, allowed⟩ := fits.allowed occurs ht ho
    rw [hd] at allowed
    obtain ⟨s, hs, held⟩ := path.stay
    show ∃ u fate, b.progressIn r = .settled r.held u fate
    generalize b.progressIn r = φ at allowed hs
    cases allowed with
    | @closed h u fate =>
      refine ⟨u, fate, ?_⟩
      rw [← held]
      cases fate <;> cases hs <;> rfl
  · rw [note]
    obtain ⟨op, hop, path, allowed⟩ := fits.allowed occurs ht ho
    obtain ⟨here, ds, hds⟩ := fits.underway ho
    refine ⟨⟨op, hop, ?_⟩, fun _ => ⟨?_, ds, ?_⟩, fun hc => ?_⟩
    · rw [Barrier.progressIn_event]
      exact path.on e allowed hd occurs.real
    · rw [Barrier.progressIn_event, Barrier.progress_append, if_pos ht.symm, here]
    · rw [deedsOf_append, deedsOf_one, if_pos ht.symm, hds]
      simp [Section.deeds]
    · rw [ho] at hc
      cases hc

theorem opened {h : Held K} (occurs : b.Occurs ops hist e) (hd : e.deed = .opened h) :
    ({ thread := e.thread, held := h } : Section K M).Fits b ops (hist ++ [e]) := by
  obtain ⟨op, hop, allowed⟩ := occurs.allowed
  refine ⟨⟨op, hop, .entered⟩, fun _ => ⟨?_, deedsOf e.thread hist, ?_⟩, nofun⟩
  · rw [Barrier.progress_append, if_pos rfl]
    rw [hd] at allowed ⊢
    show (b.progress e.thread hist).after b.rules b.table.policy (.opened h) = .entered h
    generalize b.progress e.thread hist = φ at allowed
    cases allowed
    rfl
  · rw [deedsOf_append, deedsOf_one, if_pos rfl, hd]
    rfl

/-- What is decided in a section stays so. -/
theorem decided_note (fits : r.Fits b ops hist) (occurs : b.Occurs ops hist e)
    (hr : (b.progressIn r).decided = true) : (b.progressIn (r.note e)).decided = true := by
  rcases r.note_cases e with ⟨-, note⟩ | ⟨-, -, -, note⟩ | ⟨ht, ho, hd, note⟩
  · rw [note, hr]
  · rw [note]
    exact hr
  · rw [note, Barrier.progressIn_event]
    obtain ⟨op, -, path, allowed⟩ := fits.allowed occurs ht ho
    exact path.decided_after allowed hd occurs.real hr

/-- A section in which something is to be decided is open, and its thread has not begun to forget the key. -/
theorem stay_of_undecided (fits : r.Fits b ops hist) (hr : (b.progressIn r).decided = false) :
    r.closed = false ∧ (b.progress r.thread hist).stay? = some { held := r.held } := by
  have ho : r.closed = false := by
    rw [← Bool.not_eq_true]
    intro hc
    obtain ⟨u, fate, h⟩ := fits.finished hc
    rw [h] at hr
    cases hr
  refine ⟨ho, ?_⟩
  obtain ⟨op, -, path⟩ := fits.path
  obtain ⟨s, hs, held⟩ := path.stay
  rw [(fits.underway ho).1]
  generalize b.progressIn r = φ at hr hs
  cases φ with
  | entered | saw | cleared =>
    cases hs
    cases held
    rfl
  | _ => cases hr

end Section.Fits

namespace Barrier.Course

variable {b : Barrier K M} {ops : List (Operation K M)} {hist : List (Occurrence K M)} {m : Threads K M}

/-- The sections of a chronicle fit. -/
theorem sections_fit (course : b.Course ops hist m) : ∀ r ∈ sections hist, r.Fits b ops hist := by
  induction course with
  | here => nofun
  | @start ops hist m op _ ih =>
    intro r hr
    obtain ⟨⟨op', hop, path⟩, underway, finished⟩ := ih r hr
    refine ⟨⟨op', ?_, path⟩, underway, finished⟩
    rw [List.getElem?_append_left (List.getElem?_eq_some_iff.1 hop).1]
    exact hop
  | @step ops hist m i env t d table data t' before thread op hop allowed step ih =>
    have occurs : b.Occurs ops hist ⟨i, env, m.data, d⟩ := occurs hop allowed step
    intro r hr
    rw [sections_append] at hr
    rcases List.mem_append.1 hr with hr | hr
    · obtain ⟨r₀, hr₀, rfl⟩ := List.mem_map.1 hr
      exact (ih r₀ hr₀).note occurs
    · obtain ⟨h, hd, rfl⟩ := mem_openedBy hr
      exact .opened occurs hd

/-- A thread in a section is in one of the sections of the chronicle. -/
theorem section_of_stay (course : b.Course ops hist m) {n : Nat} {s : Stay K}
    (hs : (b.progress n hist).stay? = some s) : ∃ r ∈ sections hist, r.thread = n ∧ r.closed = false := by
  induction course generalizing s with
  | here => cases hs
  | start _ _ ih => exact ih hs
  | @step ops hist m i env t d table data t' before thread op hop allowed step ih =>
    rw [sections_append]
    rw [progress_append] at hs
    by_cases hi : i = n
    · subst hi
      rw [if_pos rfl] at hs
      have stays : d.stays (b.progress i hist).stay?.toList = [s] := by
        rw [Progress.stays_after allowed]
        exact congrArg Option.toList hs
      rcases Deed.held_of_stays (stays ▸ List.mem_singleton.2 rfl) with rfl | ⟨s₀, hs₀, -⟩
      · exact ⟨_, List.mem_append_right _ (List.mem_singleton.2 rfl), rfl, rfl⟩
      · obtain ⟨r, hr, ht, ho⟩ := ih (Option.mem_toList.1 hs₀)
        refine ⟨r.note ⟨i, env, m.data, d⟩, List.mem_append_left _ (List.mem_map_of_mem hr), ?_, ?_⟩
        · rw [Section.thread_note, ht]
        · rcases r.note_cases ⟨i, env, m.data, d⟩ with ⟨other, note⟩ | ⟨-, -, hd, -⟩ | ⟨-, -, -, note⟩
          · rw [note, ho]
          · -- after closing no section is open
            have hd : d = .closed := hd
            subst hd
            have hone := Option.mem_toList.1 hs₀
            rw [hone] at stays
            cases stays
          · rw [note]
            exact ho
    · rw [if_neg hi] at hs
      obtain ⟨r, hr, ht, ho⟩ := ih hs
      refine ⟨r.note ⟨i, env, m.data, d⟩, List.mem_append_left _ (List.mem_map_of_mem hr), ?_, ?_⟩
      · rw [Section.thread_note, ht]
      · rw [Section.note_other fun h => absurd (h.symm.trans ht) hi, ho]

/-- Sections of one thread come one after the other, and a section is opened only when everything is decided in the
earlier ones of its key. -/
theorem ordered (course : b.Course ops hist m) (fresh : b.table = .new .validated) :
    (sections hist).Pairwise fun r r' => (r.thread = r'.thread → r.closed = true) ∧
      (r.held.key = r'.held.key → (b.progressIn r).decided = true) := by
  induction course with
  | here => exact .nil
  | start _ _ ih => exact ih
  | @step ops hist m i env t d table data t' before thread op hop allowed step ih =>
    have occurs : b.Occurs ops hist ⟨i, env, m.data, d⟩ := occurs hop allowed step
    have fit := before.sections_fit
    rw [sections_append]
    refine List.pairwise_append.2 ⟨?_, ?_, ?_⟩
    · refine List.pairwise_map.2 (ih.imp_of_mem fun {r r'} hr _ h => ?_)
      rw [Section.thread_note, Section.thread_note, Section.held_note, Section.held_note]
      exact ⟨fun ht => Section.closed_note (h.1 ht), fun hk => (fit r hr).decided_note occurs (h.2 hk)⟩
    · unfold Section.openedBy
      split
      · exact List.pairwise_singleton ..
      · exact .nil
    · intro r' hr' new hnew
      obtain ⟨h, hd, rfl⟩ := mem_openedBy hnew
      obtain ⟨r, hr, rfl⟩ := List.mem_map.1 hr'
      have hd : d = .opened h := hd
      subst hd
      have idle : b.progress i hist = .idle := by
        generalize b.progress i hist = φ at allowed
        cases allowed
        rfl
      rw [Section.thread_note, Section.held_note]
      refine ⟨fun ht => Section.closed_note ?_, fun hk => (fit r hr).decided_note occurs ?_⟩
      · -- the thread is in no section when it opens one
        have ht : r.thread = i := ht
        by_contra ho
        obtain ⟨op, -, path⟩ := (fit r hr).path
        obtain ⟨s, hs, -⟩ := path.stay
        rw [← ((fit r hr).underway (Bool.eq_false_iff.2 ho)).1, ht, idle] at hs
        cases hs
      · -- no other thread is in a section of the key in which something is to be decided
        by_contra hn
        obtain ⟨-, hs⟩ := (fit r hr).stay_of_undecided (Bool.eq_false_iff.2 hn)
        have hne : i ≠ r.thread := by
          rintro rfl
          rw [idle] at hs
          cases hs
        have after := before.step thread op hop allowed step
        have stay : (b.progress r.thread (hist ++ [⟨i, env, m.data, .opened h⟩])).stay? = some { held := r.held } := by
          rw [progress_append, if_neg hne]
          exact hs
        have stay' : (b.progress i (hist ++ [⟨i, env, m.data, .opened h⟩])).stay? = some { held := h } := by
          rw [progress_append, if_pos rfl, idle]
          rfl
        exact hne (after.stay_unique fresh stay' stay rfl rfl hk.symm)

end Barrier.Course

/-! ## calls of one section -/

/-- Whether an occurrence is a call on the store for the key `k`. -/
def Happening.CallsOn (k : K) (e : Occurrence K M) : Prop :=
  ∃ c r method, e.deed = .called c r ∧ Request.method? c = some (method, k)

/-- Whether an occurrence is a call that marks or removes a message of the key `k`, or drops its group. -/
def Happening.Alters (k : K) (e : Occurrence K M) : Prop :=
  ∃ c r method, e.deed = .called c r ∧ Request.method? c = some (method, k) ∧ method ≠ .add ∧ method ≠ .group

namespace Barrier.Course

variable {b : Barrier K M} {ops : List (Operation K M)} {hist : List (Occurrence K M)} {m : Threads K M}

/-- A call on the store is made in a section of its key that has not begun to forget it. -/
theorem stay_of_call {e : Occurrence K M} {k : K} (occurs : b.Occurs ops hist e) (call : e.CallsOn k) :
    ∃ h, (b.progress e.thread hist).stay? = some { held := h } ∧ h.key = k := by
  obtain ⟨c, r, method, hd, hm⟩ := call
  obtain ⟨op, -, allowed⟩ := occurs.allowed
  rw [hd] at allowed
  exact (Progress.allows_called.1 allowed).stay hm

/-- A section that its thread does not close stays open, and no forget in it is undone. -/
theorem stay_later (course : b.Course ops hist m) {pre mid : List (Occurrence K M)} (hh : hist = pre ++ mid) {n : Nat}
    (inside : ∀ x ∈ mid, x.thread = n → x.deed ≠ .closed) {s : Stay K} (hs : (b.progress n pre).stay? = some s) :
    ∃ s', (b.progress n hist).stay? = some s' ∧ s'.held = s.held ∧ s.ended ≤ s'.ended := by
  induction course generalizing mid with
  | here =>
    obtain ⟨rfl, rfl⟩ := List.append_eq_nil_iff.1 hh.symm
    cases hs
  | start _ _ ih => exact ih hh inside
  | @step ops hist m i env t d table data t' before thread op hop allowed step ih =>
    rcases List.eq_nil_or_concat mid with rfl | ⟨mid, x, rfl⟩
    · rw [List.append_nil] at hh
      rw [hh]
      exact ⟨s, hs, rfl, Nat.le_refl _⟩
    · rw [List.concat_eq_append, ← List.append_assoc] at hh
      obtain ⟨hcut, hx⟩ := List.append_inj' hh rfl
      cases hx
      obtain ⟨s₁, hs₁, held₁, le₁⟩ := ih hcut fun y hy => inside y (by simp [hy])
      rw [progress_append]
      by_cases hi : i = n
      · subst hi
        have hd : d ≠ .closed := inside ⟨i, env, m.data, d⟩ (by simp) rfl
        obtain ⟨s₂, hs₂, held₂, le₂⟩ := Progress.stay_after allowed hd hs₁
        rw [if_pos rfl]
        exact ⟨s₂, hs₂, held₂.trans held₁, Nat.le_trans le₁ le₂⟩
      · rw [if_neg hi]
        exact ⟨s₁, hs₁, held₁, le₁⟩

/-- Two calls on the store by one thread between which it closes no section are for one key, and no other thread calls
the store for this key in between. -/
theorem undisturbed (course : b.Course ops hist m) (fresh : b.table = .new .validated)
    {pre mid post : List (Occurrence K M)} {e e' : Occurrence K M} {k k' : K}
    (hh : hist = pre ++ e :: (mid ++ e' :: post)) (call : e.CallsOn k) (call' : e'.CallsOn k')
    (ht : e'.thread = e.thread) (inside : ∀ x ∈ mid, x.thread = e.thread → x.deed ≠ .closed) :
    k' = k ∧ ∀ x ∈ mid, x.CallsOn k → x.thread = e.thread := by
  subst hh
  obtain ⟨ops₁, m₁, -, -, occurs⟩ := course.at_point
  obtain ⟨h, hs, hk⟩ := stay_of_call occurs call
  have last : pre ++ e :: (mid ++ e' :: post) = (pre ++ e :: mid) ++ e' :: post := by simp
  rw [last] at course
  obtain ⟨ops₂, m₂, course₂, -, occurs'⟩ := course.at_point
  obtain ⟨h', hs', hk'⟩ := stay_of_call occurs' call'
  rw [ht] at hs'
  -- the first call closes no section either
  have inside' : ∀ x ∈ e :: mid, x.thread = e.thread → x.deed ≠ .closed := by
    intro x hx hxt
    rcases List.mem_cons.1 hx with rfl | hx
    · obtain ⟨c, r, method, hd, -⟩ := call
      rw [hd]
      nofun
    · exact inside x hx hxt
  have same : h' = h := by
    obtain ⟨s, hs₁, held, -⟩ := course₂.stay_later rfl inside' hs
    rw [hs'] at hs₁
    cases hs₁
    exact held
  refine ⟨by rw [← hk, ← hk', same], fun x hx callx => ?_⟩
  obtain ⟨mid₁, mid₂, rfl⟩ := List.append_of_mem hx
  have split : pre ++ e :: (mid₁ ++ x :: mid₂) = (pre ++ e :: mid₁) ++ x :: mid₂ := by simp
  rw [split] at course₂ hs'
  obtain ⟨ops₃, m₃, course₃, -, occursx⟩ := course₂.at_point
  obtain ⟨hx, hsx, hkx⟩ := stay_of_call occursx callx
  obtain ⟨s, hs₁, held, -⟩ := course₃.stay_later rfl
    (fun y hy => inside' y (by
      rcases List.mem_cons.1 hy with rfl | hy
      · exact List.mem_cons_self ..
      · exact List.mem_cons_of_mem _ (List.mem_append_left _ hy))) hs
  -- the section has not ended forgetting here, for it has not at the second call
  have ended : s.ended = 0 := by
    obtain ⟨s', hs₂, -, le⟩ := course₂.stay_later rfl
      (fun y hy => inside' y (List.mem_cons_of_mem _ (List.mem_append_right _ hy))) hs₁
    rw [hs'] at hs₂
    cases hs₂
    exact Nat.le_zero.1 le
  exact course₃.stay_unique fresh hsx hs₁ rfl ended (by rw [hkx, held, hk])

/-- A section in which a pull alters the group of a key has begun with two calls: one that has shown it the group, and
one that has shown it the time at which the group may release. The group is still what it has seen. -/
theorem snapshot (course : b.Course ops hist m) (fresh : b.table = .new .validated) {pre post : List (Occurrence K M)}
    {e : Occurrence K M} {k : K} (hh : hist = pre ++ e :: post) (alters : e.Alters k) :
    ∃ ds i g now, deedsOf e.thread pre =
        ds ++ [.opened ⟨k, i⟩, .called (.group k) (.ok (some g)), .called .clock now] ∧
      b.rules.release g now = .ok true ∧ e.data.store.group k = some g := by
  subst hh
  obtain ⟨ops', m', course', data, occurs⟩ := course.at_point
  obtain ⟨c, r, method, hd, hm, hadd, hgroup⟩ := alters
  obtain ⟨op, -, allowed⟩ := occurs.allowed
  rw [hd] at allowed
  have hc := Progress.allows_called.1 allowed
  have cleared : ∃ h g now, b.progress e.thread pre = .cleared h g now ∧ h.key = k := by
    obtain ⟨h, -, hk⟩ := hc.stay hm
    generalize b.progress e.thread pre = φ at hc
    cases hc with
    | add =>
      cases hm
      exact absurd rfl hadd
    | group | lookUp =>
      cases hm
      exact absurd rfl hgroup
    | clock | count | report | announce => cases hm
    | mark | remove | dropGroup =>
      cases hm
      exact ⟨_, _, _, rfl, rfl⟩
  obtain ⟨h, g, now, hφ, rfl⟩ := cleared
  have knows := course'.knows fresh e.thread
  rw [hφ] at knows
  have hs : (b.progress e.thread pre).stay? = some { held := h } := by rw [hφ]; rfl
  obtain ⟨sec, hsec, ht, ho⟩ := course'.section_of_stay hs
  obtain ⟨here, ds, hds⟩ := (course'.sections_fit sec hsec).underway ho
  obtain ⟨op', -, path⟩ := (course'.sections_fit sec hsec).path
  rw [ht, hφ] at here
  rw [← here] at path
  obtain ⟨s, hs', held⟩ := path.stay
  cases hs'
  obtain ⟨e₀, e₁, hes, hd₀, hd₁⟩ := path.trail
  refine ⟨ds, h.token, g, now, ?_, knows.2, data ▸ knows.1⟩
  rw [← ht, hds, ← held, Section.deeds, hes, List.map_cons, List.map_cons, List.map_nil, hd₀, hd₁]

end Barrier.Course

end CorrelationBarrier
