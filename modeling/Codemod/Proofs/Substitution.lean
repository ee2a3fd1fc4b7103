import Codemod.Proofs.Cancellation
import Codemod.Proofs.Composition
import Codemod.Proofs.Interchange
import Codemod.Proofs.Itinerary

namespace Codemod

theorem positions_concat {ω S : Type} (path : RecipePath) (stage : Stage ω S) (position : Nat) :
    positions (path ++ [stage.frame position]) = positions path ++ [position] := by
  simp [positions, Stage.frame]

theorem eq_of_positions_append {path : RecipePath} {address rest rest' : List Nat} {i j : Nat}
    (h : positions path ++ i :: rest = address) (h' : positions path ++ j :: rest' = address) :
    j = i :=
  (List.cons.inj (List.append_cancel_left (h'.trans h.symm))).1

theorem map_modify_of_getElem? {α β : Type} {f : α → α} {g : α → β} {xs : List α} {i : Nat} {x : α}
    (hx : xs[i]? = some x) (h : g (f x) = g x) : (xs.modify i f).map g = xs.map g := by
  induction xs generalizing i with
  | nil => rw [List.modify_nil]
  | cons y xs ih =>
    cases i with
    | zero =>
      obtain rfl : y = x := by simpa using hx
      rw [List.modify_zero_cons, List.map_cons, List.map_cons, h]
    | succ i => rw [List.modify_succ_cons, List.map_cons, List.map_cons, ih (by simpa using hx)]

namespace Recipe
variable {ω S : Type} {r node new : Recipe ω S} {address : List Nat}

def get? : Recipe ω S → List Nat → Option (Recipe ω S)
  | r, [] => some r
  | ⟨_, children⟩, i :: address => children[i]?.bind fun child => child.get? address

theorem get?_cons {stage : Stage ω S} {children : List (Recipe ω S)} {i : Nat}
    (h : get? ⟨stage, children⟩ (i :: address) = some node) :
    ∃ child, children[i]? = some child ∧ child.get? address = some node :=
  Option.bind_eq_some_iff.mp h

theorem replaceAt_self (h : r.get? address = some node) : r.replaceAt address node = r := by
  induction address generalizing r with
  | nil => exact (Option.some.inj h).symm
  | cons i address ih =>
    obtain ⟨stage, children⟩ := r
    obtain ⟨child, hc, hn⟩ := get?_cons h
    have hm : (children.modify i fun child => child.replaceAt address node).map id =
        children.map id := map_modify_of_getElem? hc (ih hn)
    rw [List.map_id, List.map_id] at hm
    rw [replaceAt, hm]

theorem hasBlankName_mk (stage : Stage ω S) (children : List (Recipe ω S)) :
    hasBlankName ⟨stage, children⟩ =
      (Text.isBlank stage.name || (children.map hasBlankName).any id) := by
  rw [hasBlankName, stages, stagesOf_eq_flatMap, List.any_cons, List.any_flatMap, List.any_map]
  rfl

theorem hasBlankName_replaceAt (h : r.get? address = some node)
    (hn : new.hasBlankName = node.hasBlankName) :
    (r.replaceAt address new).hasBlankName = r.hasBlankName := by
  induction address generalizing r with
  | nil =>
    obtain rfl := Option.some.inj h
    exact hn
  | cons i address ih =>
    obtain ⟨stage, children⟩ := r
    obtain ⟨child, hc, hget⟩ := get?_cons h
    rw [replaceAt, hasBlankName_mk, hasBlankName_mk, map_modify_of_getElem? hc (ih hget)]

theorem name_replaceAt (h : r.get? address = some node) (hn : new.stage.name = node.stage.name) :
    (r.replaceAt address new).stage.name = r.stage.name := by
  cases address with
  | nil =>
    obtain rfl := Option.some.inj h
    exact hn
  | cons i address =>
    cases r with
    | mk stage children => rfl

end Recipe

section
variable {ω S : Type}

def Moment.Faces (m : Moment ω S) (address : List Nat) : Prop :=
  m.context.cancelled = false ∧ ∃ path position r rs rows,
    m.rows = ⟨path, position, r :: rs⟩ :: rows ∧ positions path ++ [position] = 0 :: address

/-- The second row is the first one with another recipe in the place of the one at the address,
where that is still to come in it or below. -/
inductive Row.Swapped (address : List Nat) (node new : Recipe ω S) : Row ω S → Row ω S → Prop
  | along {path position i rest recipes} (hp : positions path ++ i :: rest = 0 :: address)
      (hi : position ≤ i) (hn : (recipes[i - position]?.bind fun r => r.get? rest) = some node) :
      Swapped address node new ⟨path, position, recipes⟩
        ⟨path, position, recipes.modify (i - position) fun r => r.replaceAt rest new⟩
  | aside {row} (h : ∀ i rest, positions row.path ++ i :: rest = 0 :: address → i < row.position) :
      Swapped address node new row row

namespace Row.Swapped
variable {address rest : List Nat} {node new r : Recipe ω S} {path : RecipePath} {position : Nat}
variable {stage : Stage ω S} {rs children : List (Recipe ω S)} {row : Row ω S}

theorem start {recipe : Recipe ω S} (h : recipe.get? address = some node) :
    Swapped address node new ⟨[], 0, [recipe]⟩ ⟨[], 0, [recipe.replaceAt address new]⟩ :=
  .along (i := 0) rfl (Nat.le_refl 0) h

theorem of_nil (h : Swapped address node new ⟨path, position, []⟩ row) :
    row = ⟨path, position, []⟩ := by
  cases h with
  | along => simp
  | aside => rfl

theorem of_cons (h : Swapped address node new ⟨path, position, r :: rs⟩ row) :
    ∃ r' rs', row = ⟨path, position, r' :: rs'⟩ ∧
      Swapped address node new ⟨path, position + 1, rs⟩ ⟨path, position + 1, rs'⟩ ∧
      ((r' = r ∧ ∀ rest, positions path ++ position :: rest ≠ 0 :: address) ∨
        ∃ rest, positions path ++ position :: rest = 0 :: address ∧ r.get? rest = some node ∧
          r' = r.replaceAt rest new) := by
  cases h with
  | aside h =>
    refine ⟨r, rs, rfl, .aside fun i rest he => ?_, .inl ⟨rfl, fun rest he => ?_⟩⟩
    · exact Nat.lt_succ_of_lt (h i rest he)
    · exact absurd (h position rest he) (Nat.lt_irrefl position)
  | @along _ _ i rest _ hp hi hn =>
    rcases Nat.eq_or_lt_of_le hi with rfl | hlt
    · refine ⟨r.replaceAt rest new, rs, by simp, .aside fun j tail he => ?_,
        .inr ⟨rest, hp, by simpa using hn, rfl⟩⟩
      rw [eq_of_positions_append hp he]
      exact Nat.lt_succ_self position
    · obtain ⟨k, rfl⟩ : ∃ k, i = position + (k + 1) := ⟨i - position - 1, by omega⟩
      have hk : position + (k + 1) - position = k + 1 := by omega
      have hk' : position + (k + 1) - (position + 1) = k := by omega
      refine ⟨r, rs.modify k fun r => r.replaceAt rest new, by rw [hk]; rfl, ?_,
        .inl ⟨rfl, fun tail he => ?_⟩⟩
      · have hn' : (rs[position + (k + 1) - (position + 1)]?.bind fun r => r.get? rest) =
            some node := by simpa [hk, hk'] using hn
        have ha : Swapped address node new ⟨path, position + 1, rs⟩ _ := along hp (by omega) hn'
        rwa [hk'] at ha
      · have hj := eq_of_positions_append hp he
        omega

theorem below_aside (h : ∀ i rest, positions path ++ position :: i :: rest ≠ 0 :: address) :
    Swapped address node new ⟨path ++ [stage.frame position], 0, children⟩
      ⟨path ++ [stage.frame position], 0, children⟩ := by
  refine .aside fun i rest he => ?_
  rw [positions_concat, List.append_assoc] at he
  exact absurd he (h i rest)

theorem below_along {j : Nat} (hp : positions path ++ position :: j :: rest = 0 :: address)
    (hn : Recipe.get? ⟨stage, children⟩ (j :: rest) = some node) :
    Swapped address node new ⟨path ++ [stage.frame position], 0, children⟩
      ⟨path ++ [stage.frame position], 0, children.modify j fun r => r.replaceAt rest new⟩ := by
  refine .along ?_ (Nat.zero_le j) hn
  rw [positions_concat, List.append_assoc]
  exact hp

theorem below (x : Invocation ω S) {children' : List (Recipe ω S)}
    (h : Swapped address node new ⟨x.path, 0, children⟩ ⟨x.path, 0, children'⟩) :
    List.Forall₂ (Swapped address node new) (x.below children) (x.below children') := by
  unfold Invocation.below
  split
  · exact .cons h .nil
  · exact .nil

end Row.Swapped

end

section
variable {ω S : Type} [Source S]

/-- The second invocation leads the run to where the first one does, but for a row with nothing in
it. -/
structure Invocation.StandsIn (x x' : Invocation ω S) (children children' : List (Recipe ω S)) :
    Prop where
  cycle_eq : x'.cycle = x.cycle
  path_eq : x'.path = x.path
  entry_eq : x'.entry = x.entry
  before_eq : x'.before = x.before
  finish_eq : x'.finish = x.finish
  replay_eq (p : Pass S) : p.replay x'.applications = p.replay x.applications
  below_eq : x'.below children' = x.below children ∨
    (x'.below children' = [⟨x.path, 0, []⟩] ∧ x.below children = [])

structure Scheduler.Serves (σ : Scheduler) (hook : ErrorHook ω) (node new : Recipe ω S)
    (p : Pass S) (c : Context ω) : Prop where
  invoked {x : Invocation ω S} (hx : x.Performed σ hook) (hs : x.stage = node.stage)
    (hb : x.before = p.batch) (hc : x.entry = c) : ∃ x' : Invocation ω S,
      x'.Performed σ hook ∧ x'.stage = new.stage ∧ x.StandsIn x' node.children new.children
  failing {n opening path position rs rs' rows rows' error d}
    (h : Fails σ hook ⟨n, opening, ⟨path, position, node :: rs⟩ :: rows, p, c⟩ node.stage error d) :
    Fails σ hook ⟨n, opening, ⟨path, position, new :: rs'⟩ :: rows', p, c⟩ new.stage error d

namespace Scheduler
variable {σ : Scheduler} {hook : ErrorHook ω} {recipe node new : Recipe ω S} {batch : List S}
variable {address : List Nat} {c d : Context ω} {m m' : Moment ω S}
variable {own trail : List (Invocation ω S)} {rows : List (Row ω S)} {stage : Stage ω S}
variable {error : RecipeError}

theorem Reaches.stand_in {r : Recipe ω S} {opening : List S} {path : RecipePath} {position : Nat}
    {rs : List (Recipe ω S)} {p : Pass S} {x : Invocation ω S}
    (h : Reaches σ hook r batch c trail
      ⟨x.cycle, opening, ⟨path, position, new :: rs⟩ :: rows, p, x.entry⟩)
    (hx : x.Performed σ hook) (hp : x.path = path ++ [x.stage.frame position])
    (hb : p.batch = x.before) (hs : x.stage = node.stage)
    (hframe : ∀ position, new.stage.frame position = node.stage.frame position)
    (hserve : σ.Serves hook node new p x.entry) :
    ∃ trail', Reaches σ hook r batch c trail' ⟨x.cycle, opening,
      x.below node.children ++ ⟨path, position + 1, rs⟩ :: rows, p.replay x.applications,
      x.finish⟩ := by
  obtain ⟨x', hx', hstage, hstands⟩ := hserve.invoked hx hs hb.symm rfl
  obtain ⟨stage', children'⟩ := new
  obtain rfl : x'.stage = stage' := hstage
  have hp' : x'.path = path ++ [x'.stage.frame position] := by
    rw [hstands.path_eq, hp, hframe, hs]
  have hstep : Step σ hook r
      ⟨x'.cycle, opening, ⟨path, position, ⟨x'.stage, children'⟩ :: rs⟩ :: rows, p, x'.entry⟩ [x']
      ⟨x'.cycle, opening, x'.below children' ++ ⟨path, position + 1, rs⟩ :: rows,
        p.replay x'.applications, x'.finish⟩ :=
    .invoke hx' hp' (hb.trans hstands.before_eq.symm)
  rw [hstands.cycle_eq, hstands.entry_eq, hstands.replay_eq, hstands.finish_eq] at hstep
  have hnext := h.step hstep
  rcases hstands.below_eq with he | ⟨he, hnone⟩
  · rw [he] at hnext
    exact ⟨_, hnext⟩
  · rw [he] at hnext
    rw [hnone]
    exact ⟨_, hnext.step .close⟩

theorem Step.swapped (hs : Step σ hook recipe m own m')
    (hrows : List.Forall₂ (Row.Swapped address node new) m.rows rows)
    (hget : recipe.get? address = some node)
    (hframe : ∀ position, new.stage.frame position = node.stage.frame position)
    (hserve : m.Faces address → σ.Serves hook node new m.pass m.context)
    (h : Reaches σ hook (recipe.replaceAt address new) batch c trail { m with rows := rows }) :
    ∃ trail' rows', Reaches σ hook (recipe.replaceAt address new) batch c trail'
        { m' with rows := rows' } ∧
      List.Forall₂ (Row.Swapped address node new) m'.rows rows' := by
  cases hs with
  | close =>
    cases hrows with
    | @cons _ row' _ rows' hrow hrows =>
      obtain rfl := hrow.of_nil
      exact ⟨_, rows', h.step .close, hrows⟩
  | skip hc =>
    cases hrows with
    | cons hrow hrows =>
      obtain ⟨r', rs', rfl, hrest, -⟩ := hrow.of_cons
      exact ⟨_, _, h.step (.skip hc), .cons hrest hrows⟩
  | again hr hc hl ha =>
    obtain rfl : rows = [] := by
      rw [hr] at hrows
      exact List.forall₂_nil_left_iff.mp hrows
    exact ⟨_, _, h.step (.again rfl hc hl ha), .cons (.start hget) .nil⟩
  | @invoke opening path position children rs rows₀ p x hx hp hb =>
    cases hrows with
    | @cons _ row' _ rows' hrow hrows =>
      obtain ⟨r', rs', rfl, hrest, ⟨rfl, hoff⟩ | ⟨rest, hpos, hget', rfl⟩⟩ := hrow.of_cons
      · have hbelow : List.Forall₂ (Row.Swapped address node new) (x.below children)
            (x.below children) :=
          Row.Swapped.below x (hp ▸ .below_aside fun i rest => hoff (i :: rest))
        exact ⟨_, _, h.step (.invoke hx hp hb), List.rel_append hbelow (.cons hrest hrows)⟩
      cases rest with
      | cons i rest =>
        have hbelow : List.Forall₂ (Row.Swapped address node new) (x.below children)
            (x.below (children.modify i fun r => r.replaceAt rest new)) :=
          Row.Swapped.below x (hp ▸ .below_along hpos hget')
        exact ⟨_, _, h.step (.invoke hx hp hb), List.rel_append hbelow (.cons hrest hrows)⟩
      | nil =>
        obtain rfl : Recipe.mk x.stage children = node := Option.some.inj hget'
        have hfaces : Moment.Faces ⟨x.cycle, opening, ⟨path, position, ⟨x.stage, children⟩ :: rs⟩ ::
            rows₀, p, x.entry⟩ address := ⟨hx.uncancelled, path, position, _, rs, rows₀, rfl, hpos⟩
        obtain ⟨trail', h'⟩ := Reaches.stand_in h hx hp hb rfl hframe (hserve hfaces)
        have hbelow : List.Forall₂ (Row.Swapped address ⟨x.stage, children⟩ new) (x.below children)
            (x.below children) := by
          refine Row.Swapped.below x (hp ▸ .below_aside fun i rest he => ?_)
          simpa using he.trans hpos.symm
        exact ⟨trail', _, h', List.rel_append hbelow (.cons hrest hrows)⟩

theorem Fails.swapped (hf : Fails σ hook m stage error d)
    (hrows : List.Forall₂ (Row.Swapped address node new) m.rows rows)
    (hserve : m.Faces address → σ.Serves hook node new m.pass m.context) :
    ∃ stage', Fails σ hook { m with rows := rows } stage' error d := by
  obtain ⟨n, opening, own, p, c⟩ := m
  -- Only the stage of the recipe that comes next decides whether it fails.
  have hnext : ∃ path position children rs rows₀, c.cancelled = false ∧
      own = ⟨path, position, ⟨stage, children⟩ :: rs⟩ :: rows₀ ∧
      ∀ children' rs' rows', Fails σ hook
        ⟨n, opening, ⟨path, position, ⟨stage, children'⟩ :: rs'⟩ :: rows', p, c⟩ stage error d := by
    cases hf with
    | gate hc hg => exact ⟨_, _, _, _, _, hc, rfl, fun _ _ _ => .gate hc hg⟩
    | transform hc hg ht hr =>
      exact ⟨_, _, _, _, _, hc, rfl, fun _ _ _ => .transform hc hg ht hr⟩
  obtain ⟨path, position, children, rs, rows₀, hc, rfl, hother⟩ := hnext
  cases hrows with
  | @cons _ row' _ rows' hrow hrows =>
    obtain ⟨r', rs', rfl, -, ⟨rfl, -⟩ | ⟨rest, hpos, hget', rfl⟩⟩ := hrow.of_cons
    · exact ⟨stage, hother _ _ _⟩
    cases rest with
    | cons i rest => exact ⟨stage, hother _ _ _⟩
    | nil =>
      obtain rfl : Recipe.mk stage children = node := Option.some.inj hget'
      have hfaces : Moment.Faces ⟨n, opening, ⟨path, position, ⟨stage, children⟩ :: rs⟩ :: rows₀,
          p, c⟩ address := ⟨hc, path, position, _, rs, rows₀, rfl, hpos⟩
      exact ⟨new.stage, (hserve hfaces).failing hf⟩

theorem Over.swapped (ho : σ.Over m)
    (hrows : List.Forall₂ (Row.Swapped address node new) m.rows rows) :
    σ.Over { m with rows := rows } where
  rows := by
    rw [ho.rows] at hrows
    exact List.forall₂_nil_left_iff.mp hrows
  reason := ho.reason

theorem Reaches.swapped (hget : recipe.get? address = some node)
    (hframe : ∀ position, new.stage.frame position = node.stage.frame position)
    (hserve : ∀ trail m, Reaches σ hook recipe batch c trail m → m.Faces address →
      σ.Serves hook node new m.pass m.context)
    (ha : σ.checks (recipe.replaceAt address new) batch = .ok ())
    (h : Reaches σ hook recipe batch c trail m) :
    ∃ trail' rows, Reaches σ hook (recipe.replaceAt address new) batch c trail'
        { m with rows := rows } ∧
      List.Forall₂ (Row.Swapped address node new) m.rows rows := by
  induction h with
  | start _ hc => exact ⟨[], _, .start ha hc, .cons (.start hget) .nil⟩
  | step h hs ih =>
    obtain ⟨trail', rows, h', hrows⟩ := ih
    exact hs.swapped hrows hget hframe (hserve _ _ h) h'

theorem checks_replaceAt (hget : recipe.get? address = some node)
    (hframe : ∀ position, new.stage.frame position = node.stage.frame position)
    (hblank : new.hasBlankName = node.hasBlankName) :
    σ.checks (recipe.replaceAt address new) batch = σ.checks recipe batch := by
  have hname : new.stage.name = node.stage.name := congrArg Frame.name (hframe 0)
  rw [checks, checks, Recipe.validate, Recipe.validate, Recipe.hasBlankName_replaceAt hget hblank,
    Recipe.name_replaceAt hget hname]

theorem run_replaceAt (hget : recipe.get? address = some node)
    (hframe : ∀ position, new.stage.frame position = node.stage.frame position)
    (hblank : new.hasBlankName = node.hasBlankName)
    (hserve : ∀ trail m, Reaches σ hook recipe batch c trail m → m.Faces address →
      σ.Serves hook node new m.pass m.context) :
    (σ.run (recipe.replaceAt address new) batch).perform hook c =
      (σ.run recipe batch).perform hook c := by
  have hchecks : σ.checks (recipe.replaceAt address new) batch = σ.checks recipe batch :=
    checks_replaceAt hget hframe hblank
  cases ha : σ.checks recipe batch with
  | error e =>
    have ha' := hchecks.trans ha
    rw [run, run, ha, ha', Attempt.bind_of_error (Attempt.perform_ofExcept _ _ _),
      Attempt.bind_of_error (Attempt.perform_ofExcept _ _ _)]
  | ok =>
    have ha' := hchecks.trans ha
    cases hc : c.cancelled with
    | true => rw [run_cancelled_before ha hc, run_cancelled_before ha' hc]
    | false =>
      have hstart : Reaches σ hook recipe batch c [] _ := .start ha hc
      obtain ⟨trail, m, h, hlast⟩ := hstart.exists_last
      obtain ⟨trail', rows, h', hrows⟩ := h.swapped hget hframe hserve ha'
      rcases hlast with ho | ⟨stage, error, d, hf⟩
      · rw [h.run_of_over ho, h'.run_of_over (ho.swapped hrows)]
      · obtain ⟨stage', hf'⟩ := hf.swapped hrows (hserve trail m h)
        rw [h.run_of_fails hf, h'.run_of_fails hf']

theorem serves_self (σ : Scheduler) (hook : ErrorHook ω) (node : Recipe ω S) (p : Pass S)
    (c : Context ω) : σ.Serves hook node node p c where
  invoked {x} hx hs hb hc := ⟨x, hx, hs, rfl, rfl, rfl, rfl, rfl, fun _ => rfl, .inl rfl⟩
  failing h := by
    cases h with
    | gate hc hg => exact .gate hc hg
    | transform hc hg ht hf => exact .transform hc hg ht hf

theorem Reaches.eq_of_rows (h : Reaches σ hook recipe batch c trail m)
    (hget : recipe.get? address = some node) {path : RecipePath} {position : Nat}
    {r : Recipe ω S} {rs : List (Recipe ω S)} {rows : List (Row ω S)}
    (hr : m.rows = ⟨path, position, r :: rs⟩ :: rows)
    (hp : positions path ++ [position] = 0 :: address) : r = node := by
  have ha : σ.checks (recipe.replaceAt address node) batch = .ok () := by
    rw [Recipe.replaceAt_self hget]
    exact h.accepted
  have hserve : ∀ trail m, Reaches σ hook recipe batch c trail m → m.Faces address →
      σ.Serves hook node node m.pass m.context :=
    fun _ m _ _ => serves_self σ hook node m.pass m.context
  obtain ⟨trail', rows', -, hrows⟩ := h.swapped hget (fun _ => rfl) hserve ha
  rw [hr] at hrows
  cases hrows with
  | cons hrow _ =>
    obtain ⟨r', rs', -, -, ⟨-, hoff⟩ | ⟨rest, hpos, hget', -⟩⟩ := hrow.of_cons
    · exact absurd hp (hoff [])
    · obtain rfl : rest = [] := by simpa using hpos.trans hp.symm
      exact Option.some.inj hget'

end Scheduler

end

end Codemod
