import CorrelationBarrier.Proofs.Barrier.Course

/-!
# The way through a section

What happens in a section, from its opening on, and how its program would come through it alone.

* `Program.Follows` — a program does the given deeds;
* `surroundingsOf` — the circumstances of the calls in a section, taken together;
* `Progress.Path` — what happens in a section leads its progress on; the progress tells which calls have been made
  (`Path.trail`);
* `Path.replay` — how the program of the section has come to where it is, and how it comes there alone.
-/

namespace CorrelationBarrier

variable {K M : Type}

/-! ## programs inside a section -/

section Follows

variable {I : Interface} {α : Type}

/-- `p.Does d q`: the program `p` does `d` and goes on as `q`, without leaving its section or entering another one. -/
inductive Program.Does : Program K I α → Deed K I → Program K I α → Prop where
  | call {c next} (r : I.Reply c) : Does (.call c next) (.called c r) (next r)
  | retire {depth next} : Does (.forget depth next) (.retired depth) (.forget depth next)
  | forget {depth next} (b : Bool) : Does (.forget depth next) (.forgot depth b) (next b)

/-- `p.Follows ds q`: the program `p` does the deeds `ds` one after the other and goes on as `q`. -/
inductive Program.Follows : Program K I α → List (Deed K I) → Program K I α → Prop where
  | nothing (p) : Follows p [] p
  | one {p ds q d q'} (before : Follows p ds q) (does : q.Does d q') : Follows p (ds ++ [d]) q'

end Follows

namespace Progress

variable {rules : Rules K M} {policy : TokenPolicy} {op : Operation K M} {φ : Progress K M}

/-- In a phase at most one call is allowed. -/
theorem AllowsCall.unique {c c' : Request K M} (hc : φ.AllowsCall rules op c) (hc' : φ.AllowsCall rules op c') :
    c = c' := by
  cases hc with
  | add accepts =>
    cases hc' with
    | add accepts' =>
      cases accepts.symm.trans accepts'
      rfl
    | group pulls' => cases accepts.symm.trans pulls'
  | group pulls =>
    cases hc' with
    | add accepts' => cases accepts'.symm.trans pulls
    | group => rfl
  -- the mode of the release and the first unmarked message decide
  | mark mode first =>
    cases hc' with
    | mark mode' first' =>
      cases first.symm.trans first'
      rfl
    | remove mode' => cases mode.symm.trans mode'
    | dropGroup drained' => cases (congrArg List.head? drained').symm.trans first
  | remove mode first =>
    cases hc' with
    | mark mode' => cases mode.symm.trans mode'
    | remove mode' first' =>
      cases first.symm.trans first'
      rfl
    | dropGroup drained' => cases (congrArg List.head? drained').symm.trans first
  | dropGroup drained =>
    cases hc' with
    | mark _ first' => cases (congrArg List.head? drained).symm.trans first'
    | remove _ first' => cases (congrArg List.head? drained).symm.trans first'
    | dropGroup => rfl
  | count counts =>
    cases hc' with
    | count counts' =>
      cases counts.symm.trans counts'
      rfl
  | announce accepts key =>
    cases hc' with
    | announce accepts' key' =>
      cases accepts.symm.trans accepts'
      cases key.symm.trans key'
      rfl
  | lookUp | clock | report =>
    cases hc'
    rfl

end Progress

namespace Act

variable {rules : Rules K M} {policy : TokenPolicy} {op : Operation K M} {φ : Progress K M} {α : Type}
  {upshot : α → Upshot K M} {h : Held K}

/-- What is left of the program of a section; in the midst of forgetting, the rest begins with the reply to it. -/
def Rest (rules : Rules K M) (policy : TokenPolicy) (op : Operation K M) (upshot : α → Upshot K M) (h : Held K)
    (p : Act K M α) (φ : Progress K M) : Prop :=
  match φ, p with
  | .forgetting h' u, .forget depth next => ∀ b, (Progress.forgetting h' u).Allows rules op (.forgot depth b) ∧
      Settles rules policy op upshot h (next b) ((Progress.forgetting h' u).after rules policy (.forgot depth b))
  | φ, p => Settles rules policy op upshot h p φ

theorem Settles.not_forgetting {p : Act K M α} {h' : Held K} {u : Upshot K M}
    (settles : Settles rules policy op upshot h p (.forgetting h' u)) : False := by
  cases p with
  | done a =>
    obtain ⟨fate, e⟩ := settles
    cases e
  | forget | call => cases settles.1
  | _ => exact settles

theorem Settles.rest {p : Act K M α} (settles : Settles rules policy op upshot h p φ) :
    Rest rules policy op upshot h p φ := by
  cases φ with
  | forgetting => exact settles.not_forgetting.elim
  | _ => exact settles

theorem Rest.settles {p : Act K M α} (rest : Rest rules policy op upshot h p φ)
    (hφ : ∀ h' u, φ ≠ .forgetting h' u) : Settles rules policy op upshot h p φ := by
  cases φ with
  | forgetting h' u => exact absurd rfl (hφ h' u)
  | _ => exact rest

/-- A section does what it may, and its program goes on accordingly. -/
theorem Rest.does {p : Act K M α} (rest : Rest rules policy op upshot h p φ)
    {d : Deed K (Request.interface K M)} (allowed : φ.Allows rules op d) (inside : d ≠ .closed) :
    ∃ q, p.Does d q ∧ Rest rules policy op upshot h q (φ.after rules policy d) := by
  cases allowed with
  | closed => exact absurd rfl inside
  | @called _ c r hc =>
    have settles := rest.settles fun h' u e => by
      subst e
      cases hc
    cases p with
    | done a =>
      obtain ⟨fate, rfl⟩ := settles
      cases hc
    | forget depth next =>
      cases settles.1
      cases hc
    | call c' next =>
      cases hc.unique settles.1
      refine ⟨next r, .call r, ?_⟩
      rw [Progress.after_called]
      exact (settles.2 r).rest
    | _ => exact settles.elim
  | @retired h' u =>
    cases p with
    | done a =>
      obtain ⟨fate, e⟩ := rest
      cases e
    | forget depth next =>
      cases rest.1
      exact ⟨.forget 0 next, .retire, rest.2⟩
    | call c next => cases rest.1
    | _ => exact rest.elim
  | @forgot h' u b =>
    cases p with
    | forget depth next =>
      obtain ⟨same, settles⟩ := rest b
      cases same
      exact ⟨next b, .forget b, settles.rest⟩
    | done a =>
      obtain ⟨fate, e⟩ := rest
      cases e
    | call c next => cases rest.1
    | _ => exact rest.elim
  | opened | looked | sought | declined | gaveBack =>
    cases p with
    | done a =>
      obtain ⟨fate, e⟩ := rest
      cases e
    | forget | call => cases rest.1
    | _ => exact rest.elim

end Act

/-! ## the circumstances of a section -/

/-- Whether `env` are such as the calls of an occurrence met. -/
def Happening.Suits (e : Occurrence K M) (env : Surroundings) : Prop :=
  ∀ c r, e.deed = .called c r →
    (∀ method k, Request.method? c = some (method, k) → env.fault method = e.env.fault method) ∧
    (Request.timed c → env.now = e.env.now)

/-- Circumstances joined by those of one more call: how its method fares, and the time if it reads the clock. -/
def Surroundings.join (env : Surroundings) (e : Occurrence K M) : Surroundings :=
  match e.deed with
  | .called c _ =>
    { now := if Request.timed c then e.env.now else env.now
      fault := fun method =>
        if (Request.method? c).map (·.1) = some method then e.env.fault method else env.fault method }
  | _ => env

/-- The circumstances of the calls in a section. No method is called twice in one, and the clock is read at most
once. -/
def surroundingsOf (es : List (Occurrence K M)) : Surroundings := es.foldl Surroundings.join {}

theorem surroundingsOf_append (es : List (Occurrence K M)) (e : Occurrence K M) :
    surroundingsOf (es ++ [e]) = (surroundingsOf es).join e := by
  simp [surroundingsOf]

theorem Happening.suits_join (e : Occurrence K M) (env : Surroundings) : e.Suits (env.join e) := by
  intro c r he
  refine ⟨fun method k hm => ?_, fun ht => ?_⟩
  · simp [Surroundings.join, he, hm]
  · simp [Surroundings.join, he, ht]

/-- Whether the calls of two occurrences are by the same method, or both read the clock. -/
def Happening.Clashes (e e' : Occurrence K M) : Prop :=
  ∃ c r c' r', e.deed = .called c r ∧ e'.deed = .called c' r' ∧
    ((∃ method k k', Request.method? c = some (method, k) ∧ Request.method? c' = some (method, k')) ∨
      (Request.timed c ∧ Request.timed c'))

theorem Happening.Suits.join {e e' : Occurrence K M} {env : Surroundings} (suits : e.Suits env)
    (apart : ¬ e.Clashes e') : e.Suits (env.join e') := by
  intro c r he
  obtain ⟨fault, now⟩ := suits c r he
  cases hd : e'.deed with
  | called c' r' =>
    refine ⟨fun method k hm => ?_, fun ht => ?_⟩
    · have hne : (Request.method? c').map (·.1) ≠ some method := by
        intro h
        obtain ⟨⟨method', k'⟩, hm', rfl⟩ := Option.map_eq_some_iff.1 h
        exact apart ⟨c, r, c', r', he, hd, .inl ⟨method', k, k', hm, hm'⟩⟩
      simp only [Surroundings.join, hd, if_neg hne]
      exact fault method k hm
    · have hne : ¬ Request.timed c' = true := fun ht' => apart ⟨c, r, c', r', he, hd, .inr ⟨ht, ht'⟩⟩
      simp only [Surroundings.join, hd, if_neg hne]
      exact now ht
  | _ =>
    simp only [Surroundings.join, hd]
    exact ⟨fault, now⟩

namespace Progress

variable [DecidableEq K] [BEq M]

/-- `Path rules policy op h es φ`: in the section `h`, what has happened since it was opened has led to the phase
`φ`. -/
inductive Path (rules : Rules K M) (policy : TokenPolicy) (op : Operation K M) (h : Held K) :
    List (Occurrence K M) → Progress K M → Prop where
  | entered : Path rules policy op h [] (.entered h)
  | on {es φ} (e : Occurrence K M) (before : Path rules policy op h es φ) (allowed : φ.Allows rules op e.deed)
    (inside : e.deed ≠ .closed) (real : ∀ c r, e.deed = .called c r → r = (e.data.perform e.env c).1) :
    Path rules policy op h (es ++ [e]) (φ.after rules policy e.deed)

variable {rules : Rules K M} {policy : TokenPolicy} {op : Operation K M} {h : Held K} {es : List (Occurrence K M)}
  {φ : Progress K M}

/-- The section of a path stays open. -/
theorem Path.stay (path : Path rules policy op h es φ) : ∃ s, φ.stay? = some s ∧ s.held = h := by
  induction path with
  | entered => exact ⟨_, rfl, rfl⟩
  | on e _ allowed inside _ ih =>
    obtain ⟨s, hs, held⟩ := ih
    obtain ⟨s', hs', held', -⟩ := stay_after allowed inside hs
    exact ⟨s', hs', held'.trans held⟩

/-- What a phase tells of the calls that have led to it. -/
def Trail (φ : Progress K M) (es : List (Occurrence K M)) : Prop :=
  match φ with
  | .entered _ => es = []
  | .refused h _ => ∃ e m r, es = [e] ∧ e.deed = .called (.add h.key m) r
  | .saw h g => ∃ e, es = [e] ∧ e.deed = .called (.group h.key) (.ok (some g))
  | .cleared h g now => ∃ e e', es = [e, e'] ∧ e.deed = .called (.group h.key) (.ok (some g)) ∧
      e'.deed = .called .clock now
  | _ => True

theorem Path.trail (path : Path rules policy op h es φ) : φ.Trail es := by
  induction path with
  | entered => rfl
  | @on es φ e before allowed inside _ ih =>
    generalize hd : e.deed = d at allowed inside ⊢
    cases allowed with
    | @called _ c r hc =>
      rw [after_called]
      cases hc with
      | @add h' m =>
        cases ih
        show (afterAdd policy h' r).Trail [e]
        rcases r with (err | text) | ⟨⟩
        · cases policy with
          | tolerant => exact trivial
          | validated => exact ⟨e, m, _, rfl, hd⟩
        · exact trivial
        · exact trivial
      | @group h' =>
        cases ih
        show (afterGroup h' r).Trail [e]
        rcases r with f | (_ | g)
        · exact trivial
        · exact trivial
        · exact ⟨e, rfl, hd⟩
      | @lookUp h' err =>
        show (afterLookup h' err r).Trail _
        rcases r with (f | text) | (_ | g) <;> exact trivial
      | @clock h' g =>
        obtain ⟨e₀, rfl, hd₀⟩ := ih
        show (afterClock rules h' g r).Trail [e₀, e]
        unfold afterClock
        split
        · exact trivial
        · exact trivial
        · exact ⟨e₀, e, rfl, hd₀, hd⟩
      | @mark h' g now m | @remove h' g now m =>
        show (afterHandOut h' m r).Trail _
        cases r <;> exact trivial
      | @dropGroup h' =>
        show (afterDrop h' r).Trail _
        cases r <;> exact trivial
      | @report h' event u fate =>
        show (afterReport policy h' u fate).Trail _
        cases fate <;> cases policy <;> exact trivial
      | count | announce =>
        obtain ⟨s, hs, -⟩ := before.stay
        cases hs
    | closed => exact absurd rfl inside
    | retired => exact trivial
    | @forgot h' u =>
      show (afterForget h' u).Trail _
      unfold afterForget
      split <;> exact trivial
    | opened | looked | sought | declined | gaveBack =>
      obtain ⟨s, hs, -⟩ := before.stay
      cases hs

/-- No two calls in a section are by one method, and the clock is read at most once. -/
theorem Path.apart (path : Path rules policy op h es φ) {e' : Occurrence K M} (allowed : φ.Allows rules op e'.deed) :
    ∀ e ∈ es, ¬ e.Clashes e' := by
  rintro e he ⟨c, r, c', r', hd, hd', clash⟩
  rw [hd'] at allowed
  have hc := allows_called.1 allowed
  have trail := path.trail
  cases hc with
  | add | group =>
    cases trail
    cases he
  | lookUp =>
    obtain ⟨e₀, m, r₀, rfl, hd₀⟩ := trail
    cases List.mem_singleton.1 he
    cases hd.symm.trans hd₀
    rcases clash with ⟨method, j, j', hm, hm'⟩ | ⟨-, ht⟩
    · cases hm
      cases hm'
    · cases ht
  | clock =>
    obtain ⟨e₀, rfl, hd₀⟩ := trail
    cases List.mem_singleton.1 he
    cases hd.symm.trans hd₀
    rcases clash with ⟨method, j, j', -, hm'⟩ | ⟨ht, -⟩
    · cases hm'
    · cases ht
  | mark | remove | dropGroup =>
    obtain ⟨e₀, e₁, rfl, hd₀, hd₁⟩ := trail
    rcases clash with ⟨method, j, j', hm, hm'⟩ | ⟨-, ht⟩
    · rcases List.mem_cons.1 he with rfl | he
      · cases hd.symm.trans hd₀
        cases hm
        cases hm'
      · cases List.mem_singleton.1 he
        cases hd.symm.trans hd₁
        cases hm
    · cases ht
  | report =>
    rcases clash with ⟨method, j, j', -, hm'⟩ | ⟨-, ht⟩
    · cases hm'
    · cases ht
  | count | announce =>
    obtain ⟨s, hs, -⟩ := path.stay
    cases hs

/-- The circumstances of a section are such as each of its calls met. -/
theorem Path.suits (path : Path rules policy op h es φ) : ∀ e ∈ es, e.Suits (surroundingsOf es) := by
  induction path with
  | entered => nofun
  | @on es φ e before allowed _ _ ih =>
    intro e' he'
    rw [surroundingsOf_append]
    rcases List.mem_append.1 he' with he' | he'
    · exact (ih e' he').join (before.apart allowed e' he')
    · cases List.mem_singleton.1 he'
      exact e.suits_join _

/-- Whether a section has made the call that decides what it comes to: the one that adds a message, takes one out, drops
the group, or finds that there is nothing to do. -/
def decided : Progress K M → Bool
  | .entered _ | .saw _ _ | .cleared _ _ _ => false
  | _ => true

omit [DecidableEq K] [BEq M] in
theorem eq_entered_of_group {h' : Held K} {g : Group K M} {r : Outcome StoreError (Option (Group K M))} {k : K}
    (hc : φ.AllowsCall rules op (.group k)) (h : φ.afterCall rules policy (.group k) r = .saw h' g) :
    φ = .entered h' ∧ k = h'.key ∧ r = .ok (some g) := by
  cases hc with
  | @group h₀ =>
    have h : afterGroup h₀ r = .saw h' g := h
    rcases r with f | (_ | g')
    · cases h
    · cases h
    · cases h
      exact ⟨rfl, rfl, rfl⟩
  | @lookUp h₀ err =>
    have h : afterLookup h₀ err r = .saw h' g := h
    rcases r with (f | text) | (_ | g') <;> cases h

omit [DecidableEq K] [BEq M] in
theorem eq_saw_of_clock {h' : Held K} {g : Group K M} {now now' : Instant} (hc : φ.AllowsCall rules op .clock)
    (h : φ.afterCall rules policy .clock now' = .cleared h' g now) : φ = .saw h' g ∧ now' = now := by
  cases hc with
  | @clock h₀ g₀ =>
    have h : afterClock rules h₀ g₀ now' = .cleared h' g now := h
    unfold afterClock at h
    split at h
    · cases h
    · cases h
    · cases h
      exact ⟨rfl, rfl⟩

/-- A section that is still undecided after an occurrence has found a group, or has found that it may release. -/
theorem Path.undecided_after (path : Path rules policy op h es φ) {e : Occurrence K M}
    (allowed : φ.Allows rules op e.deed) (inside : e.deed ≠ .closed)
    (real : ∀ c r, e.deed = .called c r → r = (e.data.perform e.env c).1)
    (undecided : (φ.after rules policy e.deed).decided = false) :
    (∃ h' g, φ = .entered h' ∧ e.deed = .called (.group h'.key) (.ok (some g)) ∧
      φ.after rules policy e.deed = .saw h' g) ∨
    ∃ h' g now, φ = .saw h' g ∧ e.deed = .called .clock now ∧ φ.after rules policy e.deed = .cleared h' g now := by
  have trail := (path.on e allowed inside real).trail
  generalize hφ : φ.after rules policy e.deed = φ' at trail undecided
  cases φ' with
  | entered h' => exact absurd trail (List.append_ne_nil_of_right_ne_nil _ (List.cons_ne_nil _ _))
  | saw h' g =>
    obtain ⟨e₀, hes, hd⟩ := trail
    have hes : es ++ [e] = [] ++ [e₀] := hes
    obtain ⟨-, he⟩ := List.append_inj' hes rfl
    cases he
    rw [hd] at allowed hφ
    have hφ := (after_called φ (.group h'.key) (.ok (some g))).symm.trans hφ
    obtain ⟨rfl, -, -⟩ := eq_entered_of_group (allows_called.1 allowed) hφ
    exact .inl ⟨h', g, rfl, hd, rfl⟩
  | cleared h' g now =>
    obtain ⟨e₀, e₁, hes, -, hd⟩ := trail
    have hes : es ++ [e] = [e₀] ++ [e₁] := hes
    obtain ⟨-, he⟩ := List.append_inj' hes rfl
    cases he
    rw [hd] at allowed hφ
    have hφ := (after_called φ .clock now).symm.trans hφ
    obtain ⟨rfl, -⟩ := eq_saw_of_clock (allows_called.1 allowed) hφ
    exact .inr ⟨h', g, now, rfl, hd, rfl⟩
  | _ => cases undecided

/-- What is decided stays so. -/
theorem Path.decided_after (path : Path rules policy op h es φ) {e : Occurrence K M}
    (allowed : φ.Allows rules op e.deed) (inside : e.deed ≠ .closed)
    (real : ∀ c r, e.deed = .called c r → r = (e.data.perform e.env c).1)
    (hφ : φ.decided = true) : (φ.after rules policy e.deed).decided = true := by
  by_contra hn
  rcases path.undecided_after allowed inside real (Bool.eq_false_iff.2 hn) with
    ⟨h', g, rfl, -, -⟩ | ⟨h', g, now, rfl, -, -⟩
  · cases hφ
  · cases hφ

/-- How the program of a section has come through it: it has followed what happened and still has to do the rest. As
long as nothing is decided, it comes to the same point alone, if it is run with the same knowledge under the same
circumstances. -/
theorem Path.replay (path : Path rules policy op h es φ) {α : Type} {upshot : α → Upshot K M} {body : Act K M α}
    (settles : Act.Settles rules policy op upshot h body (.entered h)) :
    ∃ p, body.Follows (es.map (·.deed)) p ∧ Act.Rest rules policy op upshot h p φ ∧
      (φ.decided = false → ∀ env, (∀ e ∈ es, e.Suits env) → ∀ s : Solo K (Shared K M),
        φ.Knows rules policy s.data.store →
        ∃ s', s'.data.store = s.data.store ∧ body.run Shared.service env s = p.run Shared.service env s') := by
  induction path with
  | entered => exact ⟨body, .nothing body, settles.rest, fun _ _ _ s _ => ⟨s, rfl, rfl⟩⟩
  | @on es φ e before allowed inside real ih =>
    obtain ⟨p, follows, rest, alone⟩ := ih
    obtain ⟨q, does, rest'⟩ := rest.does allowed inside
    refine ⟨q, ?_, rest', fun undecided env suits s knows => ?_⟩
    · rw [List.map_append]
      exact .one follows does
    · have suits' : ∀ e ∈ es, e.Suits env := fun e he => suits e (List.mem_append_left _ he)
      have suited : e.Suits env := suits e List.mem_concat_self
      rcases before.undecided_after allowed inside real undecided with
        ⟨h', g, rfl, hd, hφ⟩ | ⟨h', g, now, rfl, hd, hφ⟩
      · rw [hφ] at knows
        rw [hd] at does
        obtain ⟨s₁, hs₁, run⟩ := alone rfl env suits' s trivial
        cases does with
        | @call c next r =>
          -- the call is answered as it was, for the group is the same
          have fault : env.fault .group = none := by
            rw [(suited _ _ hd).1 .group _ rfl]
            exact (Shared.perform_group_ok (real _ _ hd).symm).1
          have reply : (s₁.data.perform env (.group h'.key)).1 = .ok (some g) := by
            rw [Shared.perform_group_of_no_fault fault, hs₁]
            exact congrArg Except.ok knows
          refine ⟨{ s₁ with data := (s₁.data.perform env (.group h'.key)).2 }, ?_, run.trans ?_⟩
          · exact Shared.store_perform_group.trans hs₁
          · exact congrArg (fun r => (next r).run Shared.service env _) reply
      · rw [hφ] at knows
        rw [hd] at does
        obtain ⟨s₁, hs₁, run⟩ := alone rfl env suits' s knows.1
        cases does with
        | @call c next r =>
          have time : env.now = now := by
            rw [(suited _ _ hd).2 rfl]
            exact (real _ _ hd).symm
          exact ⟨s₁, hs₁, run.trans (congrArg (fun r => (next r).run Shared.service env s₁) time)⟩

end Progress

end CorrelationBarrier
