/-!
# Ordered rules

A list of rules consulted from its head, where the first accepting rule decides.
`First` is the rule that decides and `Examined` the rules looked at on the way,
the deciding one included. Adding a rule in front changes the decision only
where the new rule accepts.
-/

namespace OrderedRules

universe u
variable {α : Type u}

/-- The rule accepts and no rule in front of it does. It is the rule that decides. -/
def First (accepts : α → Prop) (rules : List α) (rule : α) : Prop :=
  ∃ front back, rules = front ++ rule :: back ∧ accepts rule ∧ ∀ other ∈ front, ¬ accepts other

/-- No rule in front of this one accepts, so a search from the front gets as far as this rule. -/
def Examined (accepts : α → Prop) (rules : List α) (rule : α) : Prop :=
  ∃ front back, rules = front ++ rule :: back ∧ ∀ other ∈ front, ¬ accepts other

/-- The head decides when it accepts; otherwise the remaining rules do. So the rules examined are
the head, and behind it those examined in the rest. -/
theorem examined_cons (accepts : α → Prop) (head : α) (rules : List α) (rule : α) :
    Examined accepts (head :: rules) rule ↔
      rule = head ∨ ¬ accepts head ∧ Examined accepts rules rule := by
  constructor
  · rintro ⟨front, back, split, passed⟩
    cases front with
    | nil => exact Or.inl (List.cons.inj split).1.symm
    | cons first front =>
      obtain ⟨rfl, tail⟩ := List.cons.inj split
      refine Or.inr ⟨passed head List.mem_cons_self, front, back, tail, ?_⟩
      intro other member
      exact passed other (List.mem_cons_of_mem head member)
  · rintro (rfl | ⟨refused, front, back, rfl, passed⟩)
    · exact ⟨[], rules, rfl, by simp⟩
    · refine ⟨head :: front, back, rfl, ?_⟩
      intro other member
      rcases List.mem_cons.mp member with rfl | member
      · exact refused
      · exact passed other member

theorem not_examined_nil (accepts : α → Prop) (rule : α) : ¬ Examined accepts [] rule := by
  rintro ⟨front, back, split, _⟩
  simp at split

/-- An examined rule is one of the rules. -/
theorem examined_mem (accepts : α → Prop) (rules : List α) (rule : α)
    (examined : Examined accepts rules rule) : rule ∈ rules := by
  obtain ⟨front, back, rfl, _⟩ := examined
  simp

theorem find_cons (accepts : α → Bool) (head : α) (rules : List α) :
    (head :: rules).find? accepts = if accepts head then some head else rules.find? accepts := by
  rw [List.find?_cons]
  cases accepts head <;> rfl

/-- The rule that decides is the one examined that accepts. -/
theorem first_iff_examined (accepts : α → Prop) (rules : List α) (rule : α) :
    First accepts rules rule ↔ Examined accepts rules rule ∧ accepts rule := by
  constructor
  · rintro ⟨front, back, split, accepted, refused⟩
    exact ⟨⟨front, back, split, refused⟩, accepted⟩
  · rintro ⟨⟨front, back, split, refused⟩, accepted⟩
    exact ⟨front, back, split, accepted, refused⟩

/-- Conditions that agree on the rules of a list have the same first rule; what they say of other
rules does not matter. -/
theorem first_congr (accepts other : α → Prop) (rules : List α)
    (agree : ∀ rule ∈ rules, accepts rule ↔ other rule) (rule : α) :
    First accepts rules rule ↔ First other rules rule := by
  refine exists_congr fun front => exists_congr fun back => and_congr_right ?_
  rintro rfl
  refine and_congr (agree rule (by simp)) ?_
  refine forall_congr' fun passed => forall_congr' fun member => ?_
  exact not_congr (agree passed (List.mem_append_left _ member))

theorem find_ne_of_refused (accepts : α → Bool) (rules : List α) (rule : α)
    (refused : accepts rule = false) : rules.find? accepts ≠ some rule := by
  intro found
  rw [List.find?_some found] at refused
  cases refused

/-- Two tests find the same rule exactly when the first rule that either accepts is accepted by
both.

Proof: induction on the list. A head that neither accepts is passed over by both searches, and any
other head ends at least one of them. -/
theorem find_eq_find_iff (accepts other : α → Bool) (rules : List α) :
    rules.find? accepts = rules.find? other ↔
      ∀ rule, First (fun rule => accepts rule = true ∨ other rule = true) rules rule →
        accepts rule = true ∧ other rule = true := by
  induction rules with
  | nil => simp [First]
  | cons head rules inductionHypothesis =>
    simp only [find_cons, first_iff_examined, examined_cons]
    cases accepted : accepts head with
    | true =>
      cases otherAccepted : other head with
      | true =>
        refine iff_of_true rfl ?_
        rintro rule ⟨same | ⟨refused, _⟩, _⟩
        · exact same ▸ ⟨accepted, otherAccepted⟩
        · exact absurd (Or.inl rfl) refused
      | false =>
        -- Here the second test finds a later rule, or none.
        refine iff_of_false ?_ fun both => ?_
        · intro same
          exact find_ne_of_refused other rules head otherAccepted same.symm
        · have head' := (both head ⟨Or.inl rfl, Or.inl accepted⟩).2
          rw [otherAccepted] at head'
          cases head'
    | false =>
      cases otherAccepted : other head with
      | true =>
        refine iff_of_false ?_ fun both => ?_
        · exact find_ne_of_refused accepts rules head accepted
        · have head' := (both head ⟨Or.inl rfl, Or.inr otherAccepted⟩).1
          rw [accepted] at head'
          cases head'
      | false =>
        refine inductionHypothesis.trans (forall_congr' fun rule => imp_congr_left ?_)
        rw [first_iff_examined]
        constructor
        · rintro ⟨examined, either⟩
          exact ⟨Or.inr ⟨by simp, examined⟩, either⟩
        · rintro ⟨rfl | ⟨_, examined⟩, either⟩
          · rw [accepted, otherAccepted] at either
            simp at either
          · exact ⟨examined, either⟩

section Decisions

universe v w
variable {β : Type v} {γ : Type w}

/-- The verdict of the first rule that accepts, and none where no rule does. -/
def decision (accepts : α → Bool) (verdict : α → β) (rules : List α) : Option β :=
  (rules.find? accepts).map verdict

/-- The rules in front decide, where one of them accepts; elsewhere the decision is left to the
rules behind. -/
theorem decision_append (accepts : α → Bool) (verdict : α → β) (front back : List α) :
    decision accepts verdict (front ++ back) =
      (decision accepts verdict front).or (decision accepts verdict back) := by
  rw [decision, List.find?_append, Option.map_or]
  rfl

theorem decision_singleton (accepts : α → Bool) (verdict : α → β) (rule : α) :
    decision accepts verdict [rule] = if accepts rule then some (verdict rule) else none := by
  rw [decision, find_cons]
  cases accepts rule <;> rfl

/-- Rules put in the place of others, which accept as those do with the same verdict, decide as
those do. -/
theorem decision_map (accepts : α → Bool) (verdict : α → β) (accepted : γ → Bool) (stated : γ → β)
    (replaced : α → γ) (rules : List α)
    (alike : ∀ rule ∈ rules, accepted (replaced rule) = accepts rule)
    (same : ∀ rule ∈ rules, accepts rule = true → stated (replaced rule) = verdict rule) :
    decision accepted stated (rules.map replaced) = decision accepts verdict rules := by
  induction rules with
  | nil => rfl
  | cons head rules inductionHypothesis =>
    have later := inductionHypothesis
      (fun rule member => alike rule (List.mem_cons_of_mem head member))
      (fun rule member => same rule (List.mem_cons_of_mem head member))
    rw [decision, decision] at later ⊢
    rw [List.map_cons, find_cons, find_cons, alike head List.mem_cons_self]
    cases accepts' : accepts head with
    | true => exact congrArg some (same head List.mem_cons_self accepts')
    | false => exact later

/-- Rules that never decide may as well refuse: a further condition that every rule found meets
changes no decision. -/
theorem decision_and (accepts keeps : α → Bool) (verdict : α → β) (rules : List α)
    (kept : ∀ rule, rules.find? accepts = some rule → keeps rule = true) :
    decision (fun rule => accepts rule && keeps rule) verdict rules =
      decision accepts verdict rules := by
  rw [decision, decision]
  induction rules with
  | nil => rfl
  | cons head rules inductionHypothesis =>
    simp only [find_cons] at kept ⊢
    cases accepts' : accepts head with
    | true =>
      have headKept := kept head (by rw [accepts']; rfl)
      rw [headKept]
      rfl
    | false =>
      refine inductionHypothesis ?_
      intro rule found
      apply kept rule
      rw [accepts', found]
      rfl

/-- Where rules that accept alike have the same verdict, it is the verdict of any that accepts.
Which of them comes first is then of no interest. -/
theorem decision_eq_some_iff (accepts : α → Bool) (verdict : α → β) (rules : List α)
    (agree : rules.Pairwise fun one other =>
      accepts one = true → accepts other = true → verdict one = verdict other) (value : β) :
    decision accepts verdict rules = some value ↔
      ∃ rule ∈ rules, accepts rule = true ∧ verdict rule = value := by
  induction rules with
  | nil => simp [decision]
  | cons head rules inductionHypothesis =>
    obtain ⟨first, later⟩ := List.pairwise_cons.mp agree
    rw [decision, find_cons]
    cases accepted : accepts head with
    | true =>
      constructor
      · intro decided
        exact ⟨head, List.mem_cons_self, accepted, Option.some.inj decided⟩
      · rintro ⟨rule, member, alsoAccepts, rfl⟩
        rcases List.mem_cons.mp member with rfl | inRest
        · rfl
        · exact congrArg some (first rule inRest accepted alsoAccepts)
    | false =>
      rw [if_neg Bool.false_ne_true]
      refine (inductionHypothesis later).trans ?_
      constructor
      · rintro ⟨rule, member, accepts⟩
        exact ⟨rule, List.mem_cons_of_mem head member, accepts⟩
      · rintro ⟨rule, member, accepts, same⟩
        rcases List.mem_cons.mp member with rfl | inRest
        · exact absurd accepts (Bool.eq_false_iff.mp accepted)
        · exact ⟨rule, inRest, accepts, same⟩

/-- Then their order does not matter: any permutation of the rules has the same verdict. -/
theorem decision_perm (accepts : α → Bool) (verdict : α → β) (rules others : List α)
    (agree : rules.Pairwise fun one other =>
      accepts one = true → accepts other = true → verdict one = verdict other)
    (permuted : others.Perm rules) :
    decision accepts verdict others = decision accepts verdict rules := by
  have agreeOthers : others.Pairwise fun one other =>
      accepts one = true → accepts other = true → verdict one = verdict other := by
    refine permuted.symm.pairwise agree ?_
    intro one other same acceptsOther acceptsOne
    exact (same acceptsOne acceptsOther).symm
  apply Option.ext
  intro value
  rw [decision_eq_some_iff accepts verdict others agreeOthers,
    decision_eq_some_iff accepts verdict rules agree]
  simp only [permuted.mem_iff]

/-- The order of rules is immaterial for all questions exactly when no two of them with different
verdicts accept the same question.

Proof: if two such rules accept a question, bringing one or the other to the front gives two
verdicts. Otherwise the verdict is that of any rule that accepts. -/
theorem order_irrelevant_iff (accepts : γ → α → Bool) (verdict : α → β) (rules : List α) :
    (∀ others : List α, others.Perm rules → ∀ question,
        decision (accepts question) verdict others = decision (accepts question) verdict rules) ↔
      rules.Pairwise fun one other => ∀ question, accepts question one = true →
        accepts question other = true → verdict one = verdict other := by
  constructor
  · intro irrelevant
    apply List.pairwise_iff_forall_sublist.mpr
    intro one other both question acceptsOne acceptsOther
    -- Either of the two may come first.
    obtain ⟨rest, split⟩ := both.exists_perm_append
    have oneFirst := irrelevant (one :: other :: rest) split.symm question
    have otherFirst := irrelevant (other :: one :: rest)
      ((List.Perm.swap one other rest).trans split.symm) question
    rw [← oneFirst] at otherFirst
    simp only [decision, find_cons, acceptsOne, acceptsOther, ↓reduceIte, Option.map_some,
      Option.some.injEq] at otherFirst
    exact otherFirst.symm
  · intro agree others permuted question
    refine decision_perm (accepts question) verdict rules others ?_ permuted
    exact agree.imp fun same => same question

/-- A rule behind one that accepts whatever it accepts is never found, and may be taken out. -/
theorem find_drop_covered (accepts : α → Bool) (front middle back : List α) (newer older : α)
    (covers : accepts older = true → accepts newer = true) :
    (front ++ newer :: (middle ++ older :: back)).find? accepts =
      (front ++ newer :: (middle ++ back)).find? accepts := by
  cases accepted : accepts newer with
  | true => simp only [List.find?_append, find_cons, accepted, ↓reduceIte]
  | false =>
    have refused : accepts older = false := by
      cases acceptsOlder : accepts older with
      | false => rfl
      | true => exact absurd (covers acceptsOlder) (Bool.eq_false_iff.mp accepted)
    simp only [List.find?_append, find_cons, accepted, refused, Bool.false_eq_true, ↓reduceIte]

end Decisions

end OrderedRules
