import ConceptLaws.Proofs.Correspondence.Derivations

/-! Passes in a firm relation.
While a pass that accepts what it appends goes on, its relation stays firm, its books stay in order,
and every satisfied correspondence retraces its conclusions. New correspondences are unions, or seeds
at pairs where the turns may sow. -/

namespace ConceptLaws

namespace Correspondence

variable {birth map : Correspondence} {fills : Bool} {pair other : Pair} {catalog : Catalog}
  {relation : Relation}

theorem SeededAt.pair_eq (seeded : map.SeededAt pair) (seededToo : map.SeededAt other) :
    pair = other := by
  obtain ⟨entity, node⟩ := pair
  obtain rfl : node = other.node := seededToo.node_eq seeded.member
  obtain rfl : entity = other.entity := Option.some.inj (seeded.held.symm.trans seededToo.held)
  rfl

/-- A seed was built from its own pair only. -/
theorem SeededAt.eq_of_builtAt (seeded : map.SeededAt pair) (built : map.BuiltAt other) :
    other = pair := by
  exact (seeded.pair_eq ⟨seeded.single, built.1, built.2⟩).symm

theorem Bears.seededAt (bears : birth.Bears fills map) (seeded : birth.SeededAt pair) :
    map.SeededAt pair where
  single := bears.deepPredicates ▸ seeded.single
  member := bears.deepPredicates ▸ seeded.member
  held := bears.kept _ _ seeded.held

theorem Bears.builtAt (bears : birth.Bears fills map) (built : birth.BuiltAt pair) :
    map.BuiltAt pair :=
  ⟨bears.deepPredicates ▸ built.1, bears.kept _ _ built.2⟩

/-- What becomes of a correspondence is not built from anything else. -/
theorem Bears.of_builtAt (bears : birth.Bears fills map) (grounded : birth.Grounded catalog relation)
    (built : map.BuiltAt pair) : birth.BuiltAt pair := by
  have member := bears.deepPredicates ▸ built.1
  obtain ⟨entity, held⟩ := grounded.held member
  obtain rfl := Option.some.inj (built.2.symm.trans (bears.kept _ _ held))
  exact ⟨member, held⟩

end Correspondence

/-- A correspondence was built from the deep predicate of the pair. -/
def Matcher.Built (matcher : Matcher) (pair : Pair) : Prop :=
  ∃ id map, matcher.get? id = some map ∧ map.BuiltAt pair

namespace PassState

variable {context : PassContext} {catalog : Catalog} {fresh : Pair → Prop} {state later : PassState}
  {opening : Opening}

/-- The books of a pass over a firm relation. -/
structure Traced (state : PassState) (catalog : Catalog) (opening : Opening) : Prop where
  counted : state.Counted opening.base
  stems : state.Stems catalog fun birth =>
    opening.again → birth.Retraces state.relation catalog (catalog.conclusions birth.law)
  named : ∀ id map, state.matcher.get? id = some map → map.id = id
  issued : ∀ id map, state.matcher.get? id = some map → id.toNat < state.matcher.nextMap.toNat
  registry : ∀ pair id, id ∈ state.matcher.registered pair →
    ∃ map, state.matcher.get? id = some map ∧ map.Names catalog pair
  spent : state.matcher.nextMap.toNat ≤ opening.given + state.matcher.checks
  within : state.matcher.checks ≤ state.matcher.maxChecks
  limit : state.matcher.maxChecks = opening.limit

theorem Traced.unissued (traced : state.Traced catalog opening) :
    state.matcher.get? state.matcher.nextMap = none := by
  cases found : state.matcher.get? state.matcher.nextMap with
  | none => rfl
  | some map =>
    have below := traced.issued _ map found
    omega

/-- What turns lead to. -/
structure Enlarges (catalog : Catalog) (opening : Opening) (fresh : Pair → Prop)
    (state later : PassState) : Prop where
  traced : later.Traced catalog opening
  gains : state.relation.Gains later.relation
  checked : later.matcher.checked = state.matcher.checked
  kept : ∀ id map, state.matcher.get? id = some map → later.matcher.get? id = some map
  origin : ∀ pair, later.matcher.Seeded pair → state.matcher.Seeded pair ∨ fresh pair
  roots : ∀ pair, later.matcher.Built pair → state.matcher.Built pair ∨ fresh pair

theorem Traced.enlarges_refl (traced : state.Traced catalog opening) (fresh : Pair → Prop) :
    Enlarges catalog opening fresh state state :=
  ⟨traced, state.relation.gains_refl, rfl, fun _ _ found => found, fun _ seeded => Or.inl seeded,
    fun _ built => Or.inl built⟩

theorem Enlarges.trans {first second third : PassState}
    (earlier : Enlarges catalog opening fresh first second)
    (later : Enlarges catalog opening fresh second third) :
    Enlarges catalog opening fresh first third where
  traced := later.traced
  gains := earlier.gains.trans later.gains
  checked := later.checked.trans earlier.checked
  kept := fun id map found => later.kept id map (earlier.kept id map found)
  origin := fun pair seeded => (later.origin pair seeded).elim (earlier.origin pair) Or.inr
  roots := fun pair built => (later.roots pair built).elim (earlier.roots pair) Or.inr

theorem Enlarges.seeded (enlarges : Enlarges catalog opening fresh state later) {pair : Pair}
    (seeded : state.matcher.Seeded pair) : later.matcher.Seeded pair := by
  obtain ⟨id, map, found, at_⟩ := seeded
  exact ⟨id, map, enlarges.kept id map found, at_⟩

/-- Every correspondence is built from some deep predicate. -/
theorem Stems.built {concluded : Correspondence → Prop} (stems : state.Stems catalog concluded)
    {id : MapId} {map : Correspondence} (found : state.matcher.get? id = some map) :
    ∃ deep, deep ∈ map.deepPredicates := by
  obtain ⟨birth, derived, bears, -⟩ := stems id map found
  rw [bears.deepPredicates]
  exact derived.built

/-- A new seed is where it was sown; a union is no seed. -/
theorem Stems.fresh_of_begets {concluded : Correspondence → Prop}
    (stems : state.Stems context.catalog concluded) {spent : Matcher}
    (paid : state.matcher.spend? = some spent) {birth map : Correspondence} {fills bears_ : Bool}
    (begets : Begets context fresh state.relation spent birth fills)
    (bears : birth.Bears bears_ map) {pair : Pair} (seeded : map.SeededAt pair) : fresh pair := by
  cases begets with
  | seed place allowed planned =>
    rw [seeded.pair_eq (bears.seededAt (Correspondence.seededAt_ofPlan planned))]
    exact allowed
  | union foundLeft foundRight unites =>
    obtain ⟨-, rfl⟩ := Matcher.spend?_eq_some paid
    have several := Correspondence.several_union unites (stems.built foundLeft)
      (stems.built foundRight)
    exact (several (bears.deepPredicates ▸ seeded.single)).elim

/-- What a turn makes is built from what was sown, and from what is there. -/
theorem Stems.built_of_begets {concluded : Correspondence → Prop}
    (stems : state.Stems context.catalog concluded) (valid : context.catalog.Valid)
    {spent : Matcher} (paid : state.matcher.spend? = some spent) {birth : Correspondence}
    {fills : Bool} (begets : Begets context fresh state.relation spent birth fills) {pair : Pair}
    (built : birth.BuiltAt pair) : state.matcher.Built pair ∨ fresh pair := by
  cases begets with
  | seed place allowed planned =>
    rw [(Correspondence.seededAt_ofPlan planned).eq_of_builtAt built]
    exact Or.inr allowed
  | @union leftId rightId left right merged exact foundLeft foundRight unites =>
    obtain ⟨-, rfl⟩ := Matcher.spend?_eq_some paid
    obtain ⟨birthLeft, derivedLeft, bearsLeft, -⟩ := stems leftId left foundLeft
    obtain ⟨birthRight, derivedRight, bearsRight, -⟩ := stems rightId right foundRight
    rw [unites.openLeft] at bearsLeft
    rw [unites.openRight] at bearsRight
    have asBorn := Correspondence.unites_congr derivedLeft.open_ derivedRight.open_
      (bearsLeft.coincides rfl) (bearsRight.coincides rfl) bearsLeft.deepPredicates
      bearsRight.deepPredicates unites
    rcases (Correspondence.builtAt_union asBorn (derivedLeft.grounded valid)
      (derivedRight.grounded valid)).1 built with inLeft | inRight
    · exact Or.inl ⟨leftId, left, foundLeft, bearsLeft.builtAt inLeft⟩
    · exact Or.inl ⟨rightId, right, foundRight, bearsRight.builtAt inRight⟩

/-! ## Turns -/

/-- The books after a correspondence was made. -/
theorem Traced.make (traced : state.Traced catalog opening) (valid : catalog.Valid)
    {birth : Correspondence} {fills : Bool} (makes : state.Makes later birth fills)
    (within : state.matcher.checks < state.matcher.maxChecks)
    (spare : opening.given + opening.limit < UInt64.size)
    (derived : birth.Derived state.relation catalog) (filled : fills = true ↔ birth.Fills catalog)
    (counted : later.Counted opening.base) (gains : state.relation.Gains later.relation)
    (retraces : fills = true → opening.again →
      birth.Retraces later.relation catalog (catalog.conclusions birth.law)) :
    later.Traced catalog opening := by
  obtain ⟨made, foundMade, -, bears⟩ := makes.found
  have used := traced.spent
  have limited := traced.limit
  have next : later.matcher.nextMap.toNat = state.matcher.nextMap.toNat + 1 := by
    rw [makes.next]
    exact Matcher.toNat_next (by omega)
  have checks := makes.checks
  have limit := makes.limit
  refine ⟨counted, traced.stems.make valid gains traced.counted.firm makes derived filled
    (fun _ retraces again => (retraces again).gains gains) retraces, fun id map found => ?_, fun id map found => ?_,
    fun pair id listed => ?_, by omega, by omega, by omega⟩
  · rcases makes.of_get? found with ⟨-, named, -⟩ | before
    · exact named
    · exact traced.named id map before
  · rcases makes.of_get? found with ⟨rfl, -, -⟩ | before
    · omega
    · have below := traced.issued id map before
      omega
  · rcases (makes.listed pair id).1 listed with old | ⟨rfl, new⟩
    · obtain ⟨map, found, names⟩ := traced.registry pair id old
      have different : id ≠ state.matcher.nextMap := by
        rintro rfl
        cases traced.unissued.symm.trans found
      exact ⟨map, (makes.others id different).trans found, names⟩
    · have held := ((derived.grounded valid).paired _ _).1 (Correspondence.mem_pairs.1 new)
      obtain ⟨deep, built, needs⟩ := derived.slim valid _ _ held
      refine ⟨made, foundMade, bears.kept _ _ held, deep, ?_, ?_⟩
      · rw [bears.deepPredicates]
        exact built
      · rw [bears.law]
        exact needs

theorem Turn.enlarges {ending : Ending context.catalog} (turn : Turn context fresh state later)
    (valid : context.catalog.Valid) (plain : context.tentative = false)
    (traced : state.Traced context.catalog ending.toOpening) (heads : later.Heads ending) :
    Enlarges context.catalog ending.toOpening fresh state later := by
  cases turn with
  | check paid =>
    obtain ⟨within, rfl⟩ := Matcher.spend?_eq_some paid
    have used := traced.spent
    exact ⟨⟨⟨traced.counted.firm, traced.counted.count⟩, traced.stems, traced.named, traced.issued,
      traced.registry, Nat.le_succ_of_le used, within, traced.limit⟩, state.relation.gains_refl, rfl,
      fun _ _ found => found, fun _ seeded => Or.inl seeded, fun _ built => Or.inl built⟩
  | @take spent taken birth fills shared paid begets takes checked =>
    have makes := @makes_settleTaken context state spent taken birth fills shared paid begets.open_
      takes checked
    obtain ⟨derived, filled⟩ := traced.stems.begets valid paid begets
    have within := (Matcher.spend?_eq_some paid).1
    have result : (state.settleTaken context taken spent.nextMap fills).Counted ending.base ∧
        state.relation.Gains (state.settleTaken context taken spent.nextMap fills).relation ∧
        (fills = true → ending.again → birth.Retraces
          (state.settleTaken context taken spent.nextMap fills).relation context.catalog
          (context.catalog.conclusions birth.law)) := by
      unfold settleTaken at heads ⊢
      cases fills with
      | false =>
        exact ⟨⟨traced.counted.firm, traced.counted.count⟩, state.relation.gains_refl,
          fun impossible => by cases impossible⟩
      | true =>
        have inside := derived.within valid
        have start : Counted { state with matcher := taken } ending.base :=
          ⟨traced.counted.firm, traced.counted.count⟩
        obtain ⟨counted, gains, retraces⟩ := start.append valid plain
          ((takes.found _).trans (if_pos rfl)) rfl begets.open_ ⟨inside.mapped, inside.owned⟩ heads
        exact ⟨counted, gains, fun _ again => (retraces again).congr ⟨rfl, rfl, rfl, rfl⟩⟩
    obtain ⟨counted, gains, retraces⟩ := result
    refine ⟨traced.make valid makes within ending.spare derived filled counted gains retraces, gains,
      makes.checked, fun id map found => ?_, fun pair seeded => ?_, fun pair built => ?_⟩
    · have different : id ≠ state.matcher.nextMap := by
        rintro rfl
        cases traced.unissued.symm.trans found
      exact (makes.others id different).trans found
    · obtain ⟨id, map, found, at_⟩ := seeded
      rcases makes.of_get? found with ⟨-, -, bears⟩ | before
      · exact Or.inr (traced.stems.fresh_of_begets paid begets bears at_)
      · exact Or.inl ⟨id, map, before, at_⟩
    · obtain ⟨id, map, found, at_⟩ := built
      rcases makes.of_get? found with ⟨-, -, bears⟩ | before
      · exact traced.stems.built_of_begets valid paid begets
          (bears.of_builtAt (derived.grounded valid) at_)
      · exact Or.inl ⟨id, map, before, at_⟩

/-- By induction on the turns, from the last one back. -/
theorem Turns.enlarges {ending : Ending context.catalog} (turns : Turns context fresh state later)
    (valid : context.catalog.Valid) (plain : context.tentative = false)
    (traced : state.Traced context.catalog ending.toOpening) (heads : later.Heads ending) :
    Enlarges context.catalog ending.toOpening fresh state later := by
  induction turns with
  | refl => exact traced.enlarges_refl fresh
  | tail _ last ih =>
    have before := ih (last.advances.heads heads)
    exact before.trans (last.enlarges valid plain before.traced heads)

end PassState

end ConceptLaws
