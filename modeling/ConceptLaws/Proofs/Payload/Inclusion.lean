import ConceptLaws.Payload
import ConceptLaws.Proofs.Decimal.Order

/-! The inclusion of payloads.
A bound of an interval stands at its number, or directly before or after it. Inclusion of intervals
compares their bounds, side by side; a number is included like the interval that holds nothing
else. So inclusion is an order on payloads without NaN, up to the sign of zeros, with the empty
constraint above all others. -/

namespace ConceptLaws

namespace Item

/-! ## Intervals -/

/-- Places for bounds; of two bounds at one number, the one marked as later comes second. -/
abbrev Bound := Decimal.Place ×ₗ Bool

def boundAt (value : Float) (later : Bool) : Bound := toLex (Decimal.place value, later)

theorem boundAt_le_iff {left right : Float} {leftLater rightLater : Bool} :
    left < right ∨ (left == right) = true ∧ leftLater ≤ rightLater ↔
      left.isNaN = false ∧ right.isNaN = false ∧
        boundAt left leftLater ≤ boundAt right rightLater := by
  rw [boundAt, boundAt, Prod.Lex.toLex_le_toLex, Decimal.lt_iff, Decimal.beq_iff]
  tauto

theorem boundAt_le_boundAt {left right : Float} {later : Bool} :
    boundAt left later ≤ boundAt right later ↔ Decimal.place left ≤ Decimal.place right := by
  rw [boundAt, boundAt, Prod.Lex.toLex_le_toLex]
  simp only [le_refl, and_true, ← le_iff_lt_or_eq]

namespace Interval

/-- An open start comes after its number. -/
def lower (bounds : Interval) : Bound := boundAt bounds.start !bounds.includesStart

/-- An open end comes before its number. -/
def upper (bounds : Interval) : Bound := boundAt bounds.finish bounds.includesFinish

def isDefined (bounds : Interval) : Bool := !bounds.start.isNaN && !bounds.finish.isNaN

theorem isDefined_iff {bounds : Interval} :
    isDefined bounds = true ↔ bounds.start.isNaN = false ∧ bounds.finish.isNaN = false := by
  simp [isDefined]

theorem includes_iff {outer inner : Interval} :
    includes outer inner = true ↔
      isDefined outer = true ∧ isDefined inner = true ∧
        lower outer ≤ lower inner ∧ upper inner ≤ upper outer := by
  have starts : ∀ left right : Bool, (left || !right) = true ↔ (!left) ≤ (!right) := by decide
  have ends : ∀ left right : Bool, (left || !right) = true ↔ right ≤ left := by decide
  simp only [includes, Bool.and_eq_true, Bool.or_eq_true, decide_eq_true_eq, gt_iff_lt,
    Decimal.beq_comm outer.finish]
  rw [← Bool.or_eq_true, ← Bool.or_eq_true, starts, ends, boundAt_le_iff, boundAt_le_iff,
    isDefined_iff, isDefined_iff]
  unfold lower upper
  tauto

/-- The interval that holds one number. -/
def point (value : Float) : Interval := ⟨value, value, true, true⟩

theorem includesNumber_iff {outer : Interval} {value : Float} :
    includesNumber outer value = true ↔ includes outer (point value) = true := by
  have starts : (if outer.includesStart then decide (outer.start ≤ value)
      else decide (outer.start < value)) = true ↔
      outer.start < value ∨ (outer.start == value) = true ∧ (!outer.includesStart) ≤ false := by
    cases outer.includesStart <;> simp [Decimal.le_iff_lt_or_beq]
  have ends : (if outer.includesFinish then decide (value ≤ outer.finish)
      else decide (value < outer.finish)) = true ↔
      value < outer.finish ∨ (value == outer.finish) = true ∧ true ≤ outer.includesFinish := by
    cases outer.includesFinish <;> simp [Decimal.le_iff_lt_or_beq]
  rw [includesNumber, Bool.and_eq_true, starts, ends, boundAt_le_iff, boundAt_le_iff, includes_iff,
    isDefined_iff, isDefined_iff]
  unfold lower upper point
  tauto

theorem includes_self (bounds : Interval) : includes bounds bounds = isDefined bounds := by
  rw [Bool.eq_iff_iff, includes_iff]
  exact ⟨fun ⟨defined, _⟩ => defined, fun defined => ⟨defined, defined, le_rfl, le_rfl⟩⟩

theorem includes_trans {outer middle inner : Interval} (first : includes outer middle = true)
    (second : includes middle inner = true) : includes outer inner = true := by
  obtain ⟨definedOuter, _, starts, ends⟩ := includes_iff.1 first
  obtain ⟨_, definedInner, startsInner, endsInner⟩ := includes_iff.1 second
  exact includes_iff.2
    ⟨definedOuter, definedInner, starts.trans startsInner, endsInner.trans ends⟩

theorem includes_both_iff {left right : Interval} :
    includes left right = true ∧ includes right left = true ↔
      isDefined left = true ∧ isDefined right = true ∧
        lower left = lower right ∧ upper left = upper right := by
  rw [includes_iff, includes_iff]
  constructor
  · rintro ⟨⟨definedLeft, definedRight, starts, ends⟩, -, -, startsBack, endsBack⟩
    exact ⟨definedLeft, definedRight, le_antisymm starts startsBack, le_antisymm endsBack ends⟩
  · rintro ⟨definedLeft, definedRight, starts, ends⟩
    exact ⟨⟨definedLeft, definedRight, starts.le, ends.ge⟩,
      definedRight, definedLeft, starts.ge, ends.le⟩

theorem includes_point_point {left right : Float} :
    includes (point left) (point right) = true ↔ (left == right) = true := by
  rw [includes_iff, isDefined_iff, isDefined_iff, Decimal.beq_iff]
  unfold lower upper point
  rw [boundAt_le_boundAt, boundAt_le_boundAt, and_self, and_self, ← le_antisymm_iff]

end Interval

/-! ## Items -/

mutual

/-- Whether no number in an item is NaN. -/
def isDefined : Item → Bool
  | number value => !value.isNaN
  | atom _ => true
  | tuple items => areDefined items
  | interval bounds => Interval.isDefined bounds

def areDefined : List Item → Bool
  | [] => true
  | item :: rest => item.isDefined && areDefined rest

end

mutual

theorem includes_self : (item : Item) → item.includes item = item.isDefined
  | number value => by
    rw [includes, isDefined, Bool.eq_iff_iff, Decimal.beq_iff]
    simp
  | atom content => by simp [includes, isDefined]
  | tuple items => by rw [includes, isDefined, includesAll_self items]
  | interval bounds => by rw [includes, isDefined, Interval.includes_self]

theorem includesAll_self : (items : List Item) → includesAll items items = areDefined items
  | [] => rfl
  | item :: rest => by rw [includesAll, areDefined, includes_self item, includesAll_self rest]

end

mutual

theorem includes_trans : {outer middle inner : Item} → outer.includes middle = true →
    middle.includes inner = true → outer.includes inner = true
  | number _, number _, number _, first, second => by
    obtain ⟨definedOuter, _, alike⟩ := Decimal.beq_iff.1 first
    obtain ⟨_, definedInner, alikeInner⟩ := Decimal.beq_iff.1 second
    exact Decimal.beq_iff.2 ⟨definedOuter, definedInner, alike.trans alikeInner⟩
  | atom _, atom _, atom _, first, second =>
    beq_iff_eq.2 ((beq_iff_eq.1 first).trans (beq_iff_eq.1 second))
  | tuple _, tuple _, tuple _, first, second => includesAll_trans first second
  | interval _, interval _, interval _, first, second => Interval.includes_trans first second
  | interval outer, interval middle, number value, first, second =>
    Interval.includesNumber_iff.2
      (Interval.includes_trans first (Interval.includesNumber_iff.1 second))
  | interval outer, number value, number other, first, second =>
    Interval.includesNumber_iff.2 (Interval.includes_trans
      (Interval.includesNumber_iff.1 first) (Interval.includes_point_point.2 second))

theorem includesAll_trans : {outer middle inner : List Item} → includesAll outer middle = true →
    includesAll middle inner = true → includesAll outer inner = true
  | [], [], _, _, second => second
  | outer :: outerRest, middle :: middleRest, inner :: innerRest, first, second => by
    rw [includesAll, Bool.and_eq_true] at first second ⊢
    exact ⟨includes_trans first.1 second.1, includesAll_trans first.2 second.2⟩

end

theorem includesAll_nil_right {items : List Item} :
    includesAll items [] = true ↔ items = [] := by
  cases items <;> simp [includesAll]

theorem same_interval_iff {left right : Interval} :
    (interval left).same (interval right) = true ↔
      Interval.includes left right = true ∧ Interval.includes right left = true := by
  rw [Interval.includes_both_iff, Interval.isDefined_iff, Interval.isDefined_iff]
  simp only [same, Bool.and_eq_true, beq_iff_eq, Decimal.beq_iff, Interval.lower, Interval.upper,
    boundAt, toLex_inj, Prod.mk.injEq, Bool.not_inj_iff]
  tauto

mutual

theorem same_iff : (left right : Item) →
    (left.same right = true ↔ left.includes right = true ∧ right.includes left = true)
  | number left, number right => by
    rw [same, includes, includes, Decimal.beq_comm right left, and_self]
  | atom left, atom right => by
    simp only [same, includes, beq_iff_eq]
    exact ⟨fun alike => ⟨alike, alike.symm⟩, And.left⟩
  | tuple left, tuple right => sameAll_iff left right
  | interval left, interval right => same_interval_iff
  | number _, atom _ | number _, tuple _ | number _, interval _
  | atom _, number _ | atom _, tuple _ | atom _, interval _
  | tuple _, number _ | tuple _, atom _ | tuple _, interval _
  | interval _, number _ | interval _, atom _ | interval _, tuple _ => by simp [same, includes]

theorem sameAll_iff : (left right : List Item) →
    (sameAll left right = true ↔ includesAll left right = true ∧ includesAll right left = true)
  | [], [] => by simp [sameAll, includesAll]
  | [], _ :: _ | _ :: _, [] => by simp [sameAll, includesAll]
  | left :: leftRest, right :: rightRest => by
    simp only [sameAll, includesAll, Bool.and_eq_true, same_iff left right,
      sameAll_iff leftRest rightRest]
    exact and_and_and_comm

end

end Item

namespace Payload

/-! ## Payloads -/

def isDefined (payload : Payload) : Bool := Item.areDefined payload.items

theorem includes_iff {constraint payload : Payload} :
    constraint.includes payload = true ↔
      constraint.items = [] ∨ Item.includesAll constraint.items payload.items = true := by
  rw [includes, Bool.or_eq_true, isEmpty, List.isEmpty_iff]

theorem includes_trans {outer middle inner : Payload} (first : outer.includes middle = true)
    (second : middle.includes inner = true) : outer.includes inner = true := by
  rw [includes_iff] at first second ⊢
  rcases first with empty | first
  · exact .inl empty
  rcases second with empty | second
  · -- Only the empty constraint includes the empty one.
    exact .inl (Item.includesAll_nil_right.1 (empty ▸ first))
  · exact .inr (Item.includesAll_trans first second)

theorem same_iff {left right : Payload} :
    left.same right = true ↔ left.includes right = true ∧ right.includes left = true := by
  rw [same, Item.sameAll_iff, includes_iff, includes_iff]
  constructor
  · rintro ⟨there, back⟩
    exact ⟨.inr there, .inr back⟩
  · rintro ⟨empty | there, empty' | back⟩
    · rw [empty, empty']
      exact ⟨rfl, rfl⟩
    · have alike : right.items = [] := Item.includesAll_nil_right.1 (empty ▸ back)
      rw [empty, alike]
      exact ⟨rfl, rfl⟩
    · have alike : left.items = [] := Item.includesAll_nil_right.1 (empty' ▸ there)
      rw [empty', alike]
      exact ⟨rfl, rfl⟩
    · exact ⟨there, back⟩

/-- Inclusion is an order on payloads without NaN, with equality of the items for equality. Where a
constraint includes an interval, it includes the numbers in it. -/
theorem includes_partial_order (outer middle inner : Payload) :
    (outer.includes outer = true ↔ outer.isDefined = true) ∧
    (outer.includes middle = true → middle.includes inner = true → outer.includes inner = true) ∧
    (outer.includes middle = true ∧ middle.includes outer = true ↔ outer.same middle = true) ∧
    ∀ (bounds : Interval) (value : Float), outer.includes ⟨[.interval bounds]⟩ = true →
      Item.Interval.includesNumber bounds value = true →
        outer.includes ⟨[.number value]⟩ = true := by
  refine ⟨?_, includes_trans, same_iff.symm, fun bounds value included inside => ?_⟩
  · rw [includes_iff, Item.includesAll_self, isDefined]
    refine ⟨?_, .inr⟩
    rintro (empty | defined)
    · rw [empty]
      rfl
    · exact defined
  · refine includes_trans included (includes_iff.2 (.inr ?_))
    simpa [Item.includesAll, Item.includes] using inside

theorem includes_partial_order_ten :
    (parse "(0,10]").includes (parse "[0,10]") = false ∧
    (parse "[0,10]").includes (parse "(0,10]") = true ∧
    (parse "(0,10]").includes (parse "10") = true ∧
    (parse "[0,10]").includes (parse "10") = true := by
  have outer : (parse "[0,10]").includes (parse "(0,10]") = true := by decide +kernel
  have inner : (parse "(0,10]").includes (parse "10") = true := by decide +kernel
  exact ⟨by decide +kernel, outer, inner,
    (includes_partial_order (parse "[0,10]") (parse "(0,10]") (parse "10")).2.1 outer inner⟩

end Payload

end ConceptLaws
