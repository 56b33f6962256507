/-
Array creations with initializers. A creation makes its array, with a default everywhere, and
then comes to what the leaves of its initializer come to that fill it (`comesTo_creation`).

What the array holds in the end is known because nothing else gets at it before: it is a secret
while it is being filled (`Machine.Discreet.newArray`), and a leaf that holds initializers in
array creations of its own only is sealed and leaves secrets as they are. So the array holds the
values of the leaves at their paths, as far as the leaves came, and defaults everywhere else
(`Makes.contents`); and if the lengths are those of the initializer, it holds the values in the
order of the leaves (`World.Holds.elements_eq`).

A leaf with an initializer that belongs to no creation is another matter: evaluated, that
initializer fills the array that is being filled (`grid.stray_overwrites`).
-/
import OpTree.Proofs.Initializers

namespace OpTree

/-! ## The array of a creation -/

/-- The array that is made next, with a default everywhere. -/
def Machine.newArray {σ : Type} (s : Machine σ) (type : ClosedType) (ns : List Nat) :
    ArrayRef × Machine σ :=
  let (a, w) := s.world.newArray type (.filled ns type.defaultValue)
  (a, { s with world := w })

/-- A creation makes an array: its element type is closed, it has one length for every dimension,
and there is a default everywhere. -/
structure Makes {σ : Type} (host : Host σ) (session : SessionId) (element : TypeRef) (rank : Nat)
    (dimensions : List Node) (initializer : Node) (s : Machine σ) (type : ClosedType) (ns : List Nat)
    (a : ArrayRef) (s' : Machine σ) : Prop where
  closed : Run.closeType element s = (.ok type, s)
  lengths : ∃ n s₁, (Context.within host n session).newLengths rank dimensions (some initializer) s =
    (.ok ns, s₁) ∧ s₁.newArray type ns = (a, s')
  rank : ns.length = rank

/-- How a creation ends whose array is filled. -/
def Fills.answer (a : ArrayRef) (e : Option EvalError) : Except Stop Value :=
  (Fills.ended e).map fun _ => .array a

theorem Fills.answer_ne_exhausted (a : ArrayRef) (e : Option EvalError) :
    Fills.answer a e ≠ .error .exhausted := by
  cases e <;> simp [answer, ended, Except.map]

section

variable {σ : Type} {host : Host σ} {session : SessionId} {element : TypeRef} {rank : Nat}
  {dimensions items : List Node} {own span : Span} {s s₁ s' : Machine σ} {type : ClosedType}
  {ns : List Nat} {a : ArrayRef}

theorem newLengths_mono {n n' : Nat} (hn : n ≤ n') {initializer : Option Node}
    (h : (Context.within host n session).newLengths rank dimensions initializer s = (.ok ns, s₁)) :
    (Context.within host n' session).newLengths rank dimensions initializer s = (.ok ns, s₁) := by
  have agrees : Run.Agrees (NodeTerms.all (World.growing host True False)).machine
      ((Context.within host n session).newLengths rank dimensions initializer)
      ((Context.within host n' session).newLengths rank (Node.mapTypesAll (fun t => t) dimensions)
        (Node.mapTypesOption (fun t => t) initializer)) :=
    (Context.within_more host hn session).onAll.newLengths rank fun _ _ => trivial
  rw [Node.mapTypesAll_id, Node.mapTypesOption_id] at agrees
  exact agrees.more rfl h nofun

theorem evalWithin_creation {n : Nat} {initializer : Node}
    (closed : Run.closeType element s = (.ok type, s))
    (lengths : (Context.within host n session).newLengths rank dimensions (some initializer) s =
      (.ok ns, s₁)) (hr : ns.length = rank) (made : s₁.newArray type ns = (a, s'))
    {r : Except Stop Value} {t : Machine σ}
    (h : evalWithin host n session initializer (s'.filling (⟨a, []⟩ :: s'.activation.arrayInits)) =
      (r, t)) :
    evalWithin host (n + 1) session
        (.mk span (.arrayCreation element rank dimensions (some initializer))) s =
      Run.orSpan span (fun _ => (r.map fun _ => .array a, t.filling t.activation.arrayInits.tail)) s := by
  have begun : evalWithin host (n + 1) session
      (.mk span (.arrayCreation element rank dimensions (some initializer))) s =
    Run.orSpan span ((Context.within host n session).createArray element rank dimensions
      (some initializer)) s := rfl
  have initialized : (Context.within host n session).eval initializer { s' with activation :=
      { s'.activation with arrayInits := ⟨a, []⟩ :: s'.activation.arrayInits } } = (r, t) := h
  have created : Run.onWorld (Run.modifyGet fun w =>
      w.newArray type (.filled ns type.defaultValue)) s₁ = (.ok a, s') := by
    cases made
    rfl
  rw [begun]
  refine Run.orSpan_congr ?_ span
  simp only [Context.createArray, Run.bind_ok closed, Run.bind_ok lengths, hr, ne_eq,
    not_true_eq_false, if_false, Run.bind_ok created]
  rw [Run.bind_def, Run.between_apply, initialized]
  cases r <;> rfl

/-- What the items of its initializer do under a bound, a creation does under a greater one. -/
theorem creation_below {n : Nat} (closed : Run.closeType element s = (.ok type, s))
    (lengths : (Context.within host (n + 1) session).newLengths rank dimensions
      (some (.mk own (.arrayInitializer items))) s = (.ok ns, s₁))
    (hr : ns.length = rank) (made : s₁.newArray type ns = (a, s')) {inits : List ArrayInit}
    (hi : s'.activation.arrayInits = inits) {r : Except Stop Unit} {t : Machine σ}
    (h : Run.orSpan own ((Context.within host n session).fillItems 0 items)
      (s'.filling (⟨a, []⟩ :: inits)) = (r, t.filling (⟨a, []⟩ :: inits)))
    (spanned : ∀ e, r = .error (.failed e) → e.orSpan span = e) :
    evalWithin host (n + 2) session (.mk span (.arrayCreation element rank dimensions
      (some (.mk own (.arrayInitializer items))))) s = (r.map fun _ => .array a, t.filling inits) := by
  subst hi
  rw [evalWithin_creation closed lengths hr made (evalWithin_initializer h)]
  simp only [Run.orSpan]
  rcases r with (e | _) | _
  · simp only [Except.map, spanned e rfl]
    rfl
  · rfl
  · rfl

/-- Once its array is made, a creation comes to what the leaves come to that fill it. -/
theorem comesTo_creation (makes : Makes host session element rank dimensions
      (.mk own (.arrayInitializer items)) s type ns a s') {inits : List ArrayInit}
    (hi : s'.activation.arrayInits = inits) (r : Except Stop Value) (t : Machine σ) :
    ComesTo host session (.mk span (.arrayCreation element rank dimensions
      (some (.mk own (.arrayInitializer items))))) s r t ↔
    ∃ vs e u, Fills host session a inits (Node.initialItemsFrom own [] 0 items) s' vs e u ∧
      r = Fills.answer a e ∧ t = u.filling inits := by
  obtain ⟨N, s₁, lengths, made⟩ := makes.lengths
  constructor
  · intro comes
    obtain ⟨N', evaluated⟩ := comes.eventually
    have evaluated := evaluated (max N N' + 2) (by omega)
    have lengths := newLengths_mono (show N ≤ max N N' + 1 by omega) lengths
    rcases ran : Run.orSpan own ((Context.within host (max N N') session).fillItems 0 items)
      (s'.filling (⟨a, []⟩ :: inits)) with ⟨r', t'⟩
    by_cases short : r' = .error .exhausted
    · subst short
      rw [(filling_after (evalWithin_initializer ran)).2] at ran
      rw [creation_below makes.closed lengths makes.rank made hi ran (by simp)] at evaluated
      cases evaluated
      exact absurd rfl comes.1
    · obtain ⟨vs, e, u, filled, rfl, rfl⟩ := fills_of_fillItems items ran short
      rw [creation_below makes.closed lengths makes.rank made hi ran (filled.spanned span)] at evaluated
      cases evaluated
      exact ⟨vs, e, u, filled, rfl, rfl⟩
  · rintro ⟨vs, e, u, filled, rfl, rfl⟩
    obtain ⟨N', ran⟩ := fillItems_of_fills items filled
    refine ⟨Fills.answer_ne_exhausted a e, max N N' + 2, ?_⟩
    have lengths := newLengths_mono (show N ≤ max N N' + 1 by omega) lengths
    exact creation_below makes.closed lengths makes.rank made hi (ran _ (by omega)) (filled.spanned span)

/-! ## What is stored -/

/-- No array is secret. -/
def Secrecy.nothing {σ : Type} (holds : σ → Nat → Prop) : Secrecy σ := ⟨fun _ => False, holds⟩

/-- One array is. -/
def Secrecy.only {σ : Type} (a : ArrayRef) (holds : σ → Nat → Prop) : Secrecy σ := ⟨(· = a.id), holds⟩

/-- In an array, values are at some paths, and everything else is a default. -/
structure World.Holds (w : World σ) (a : ArrayRef) (ns : List Nat) (blank : Value)
    (stored : List (InitialItem × Value)) : Prop where
  lengths : ∃ cell, w.cell? a = some cell ∧ cell.lengths = ns
  items : ∀ p ∈ stored, ArrayCell.InRange ns p.1.path ∧ w.getElement a p.1.path = .ok p.2
  others : ∀ is, ArrayCell.InRange ns is → (∀ p ∈ stored, p.1.path ≠ is) →
    w.getElement a is = .ok blank

theorem Machine.Discreet.filling {S : Secrecy σ} {inits : List ArrayInit} (h : s.Discreet S inits)
    (inits' : List ArrayInit) : (s.filling inits').Discreet S inits' :=
  ⟨h.world, ⟨h.activation.receivers, h.activation.conditionals, h.activation.pendingReturn,
    h.activation.prepared⟩, rfl⟩

theorem Machine.Discreet.newArray {holds : σ → Nat → Prop} {inits : List ArrayInit}
    (h : s.Discreet (.nothing holds) inits) (made : s.newArray type ns = (a, s')) :
    s'.Discreet (.only a holds) inits := by
  cases made
  have later {i : Nat} (hi : (Secrecy.nothing holds).visible s.world i) :
      i < (s.world.arrays.push (.filled ns type.defaultValue)).size ∧ i ≠ s.world.arrays.size := by
    refine ⟨?_, Nat.ne_of_lt hi.1⟩
    rw [Array.size_push]
    exact Nat.lt_succ_of_lt hi.1
  refine ⟨h.world.keeping (by simp) later fun {i cell} found hi => ?_, h.activation.mono later, h.inits⟩
  rw [Array.getElem?_push, if_neg hi] at found
  exact h.world.arrays found nofun

theorem Machine.Discreet.storeHidden {S : Secrecy σ} {inits : List ArrayInit} (h : s.Discreet S inits)
    (secret : S.hidden a.id) (cell : ArrayCell) :
    ({ s with world := { s.world with arrays := s.world.arrays.setIfInBounds a.id cell } } :
      Machine σ).Discreet S inits := by
  refine ⟨h.world.withArrays (by simp) fun {i cell'} found hi => ?_,
    h.activation.mono fun hi => ⟨by simpa using hi.1, hi.2⟩, h.inits⟩
  have apart : a.id ≠ i := fun he => hi (he ▸ secret)
  rw [Array.getElem?_setIfInBounds_ne apart] at found
  exact h.world.arrays found hi

/-- A leaf does not get at the array that it is to be stored in. -/
theorem ComesTo.keeps_secret {S : Secrecy σ} (discreet : host.Discreet S.holds) (secret : S.hidden a.id)
    {x : Node} (plain : x.Sealed) {inits inits' : List ArrayInit} (hs : s.Discreet S inits)
    {r : Except Stop Value} {t : Machine σ} (h : ComesTo host session x (s.filling inits') r t) :
    t.Discreet S inits' ∧ t.world.cell? a = s.world.cell? a := by
  obtain ⟨-, n, evaluated⟩ := h
  obtain ⟨inv, le, -⟩ := evalWithin_discreet discreet n session (.inr plain) (hs.filling inits')
  rw [evaluated] at inv le
  exact ⟨inv, le.2 secret⟩

theorem World.inRange_of_setElement {w w' : World σ} {cell : ArrayCell} (hc : w.cell? a = some cell)
    {is : List Int} {v : Value} (h : World.setElement a is v w = (.ok (), w')) :
    ArrayCell.InRange cell.lengths is := by
  cases hf : ArrayCell.flatIndex cell.lengths is with
  | error e => rw [World.setElement_of_error hc hf] at h; cases h
  | ok k => exact ArrayCell.inRange_iff.2 ⟨k, hf⟩

theorem World.flatIndex_of_setElement {w w' : World σ} {cell : ArrayCell} (hc : w.cell? a = some cell)
    {is : List Int} {v : Value} {e : EvalError}
    (h : World.setElement a is v w = (.error (.failed e), w')) :
    ArrayCell.flatIndex cell.lengths is = .error e := by
  cases hf : ArrayCell.flatIndex cell.lengths is with
  | error e' => rw [World.setElement_of_error hc hf] at h; cases h; rfl
  | ok k =>
    obtain ⟨_, -, -, stored⟩ := World.setElement_of_inRange hc (ArrayCell.inRange_iff.2 ⟨k, hf⟩)
    rw [stored] at h
    cases h

theorem ArrayCell.get_filled {ns : List Nat} {v : Value} {is : List Int} (h : InRange ns is) :
    (ArrayCell.filled ns v).get is = .ok v := by
  obtain ⟨k, hk⟩ := inRange_iff.1 h
  have begun : filled ns v = startingWith ns [] v := rfl
  rw [begun, get_startingWith [] v hk]
  rfl

namespace Fills

variable {outer : List ArrayInit} {ls : List InitialItem} {u : Machine σ} {vs : List Value}

theorem length_eq (h : Fills host session a outer ls s vs none u) : vs.length = ls.length := by
  generalize he : (none : Option EvalError) = e at h
  induction h with
  | done => rfl
  | stored _ _ _ ih => simp [ih he]
  | failed | refused => cases he

/-- While leaves fill an array, they keep what they do not store. -/
theorem contents {S : Secrecy σ} (discreet : host.Discreet S.holds) (secret : S.hidden a.id)
    {e : Option EvalError} (h : Fills host session a outer ls s vs e u)
    (plain : ∀ l ∈ ls, l.node.Sealed) (paths : (ls.map InitialItem.path).Nodup)
    {inits : List ArrayInit} (hs : s.Discreet S inits) {cell : ArrayCell}
    (hc : s.world.cell? a = some cell) :
    ∃ cell', u.world.cell? a = some cell' ∧ cell'.lengths = cell.lengths ∧
      (∀ p ∈ ls.zip vs, ArrayCell.InRange cell.lengths p.1.path ∧ cell'.get p.1.path = .ok p.2) ∧
      ∀ is, (∀ p ∈ ls.zip vs, p.1.path ≠ is) → cell'.get is = cell.get is := by
  induction h generalizing inits cell with
  | done => exact ⟨cell, hc, rfl, nofun, fun _ _ => rfl⟩
  | @stored l ls s v t w vs e u comes stores _ ih =>
    -- the leaf leaves the array as it is, and the store changes one element of it
    obtain ⟨ht, kept⟩ := comes.keeps_secret discreet secret (plain l (by simp)) hs
    rw [hc] at kept
    have within := World.inRange_of_setElement kept stores
    obtain ⟨cell₁, set, lengths, stored⟩ := World.setElement_of_inRange (v := v) kept within
    rw [stored] at stores
    cases stores
    obtain ⟨fresh, paths⟩ := List.nodup_cons.1 paths
    obtain ⟨cell', found, lengths', items, others⟩ := ih (fun l hl => plain l (by simp [hl])) paths
      (ht.storeHidden secret cell₁) (by rw [World.cell?_setIfInBounds kept, if_pos rfl])
    refine ⟨cell', found, lengths'.trans lengths, fun p hp => ?_, fun is apart => ?_⟩
    · rcases List.mem_cons.1 hp with rfl | hp
      -- no later leaf has the path of this one
      · refine ⟨within, (others l.path fun p hp same => fresh ?_).trans (ArrayCell.get_set_same set)⟩
        exact same ▸ List.mem_map_of_mem (List.of_mem_zip hp).1
      · exact lengths ▸ items p hp
    · rw [others is fun p hp => apart p (List.mem_cons_of_mem _ hp)]
      exact ArrayCell.get_set_other set (Ne.symm (apart (l, v) List.mem_cons_self))
  | failed comes | refused comes =>
    obtain ⟨-, kept⟩ := comes.keeps_secret discreet secret (plain _ (by simp)) hs
    exact ⟨cell, kept.trans hc, rfl, by simp, fun _ _ => rfl⟩

/-- The turn of a leaf comes when those before it have been stored. -/
def Reaches (host : Host σ) (session : SessionId) (a : ArrayRef) (outer : List ArrayInit)
    (ls : List InitialItem) (s : Machine σ) (l : InitialItem) (t : Machine σ) : Prop :=
  ∃ before after vs, ls = before ++ l :: after ∧ Fills host session a outer before s vs none t

theorem Reaches.later {l l' : InitialItem} {v : Value} {t t' : Machine σ} {w : World σ}
    (comes : ComesTo host session l.node (s.filling (⟨a, l.path.dropLast⟩ :: outer)) (.ok v) t)
    (stores : World.setElement a l.path v t.world = (.ok (), w))
    (h : Reaches host session a outer ls { t with world := w } l' t') :
    Reaches host session a outer (l :: ls) s l' t' := by
  obtain ⟨before, after, vs, rfl, filled⟩ := h
  exact ⟨l :: before, after, v :: vs, rfl, .stored comes stores filled⟩

/-- If every leaf comes to an answer when its turn comes, there is an end to it. -/
theorem exists_of_reaches (ends : ∀ l t, Reaches host session a outer ls s l t →
      ∃ r u, ComesTo host session l.node (t.filling (⟨a, l.path.dropLast⟩ :: outer)) r u) :
    ∃ vs e u, Fills host session a outer ls s vs e u := by
  induction ls generalizing s with
  | nil => exact ⟨[], none, s, .done s⟩
  | cons l ls ih =>
    obtain ⟨r, t, comes⟩ := ends l s ⟨[], ls, [], rfl, .done s⟩
    rcases r with (e | _) | v
    · exact ⟨[], _, t, .failed comes⟩
    · exact absurd rfl comes.1
    · have bounded := World.setElement_ne_exhausted a l.path v t.world
      rcases stores : World.setElement a l.path v t.world with ⟨(e | _) | _, w⟩
      · exact ⟨[], _, t, .refused comes stores⟩
      · exact absurd (congrArg Prod.fst stores) bounded
      · obtain ⟨vs, e, u, filled⟩ := ih fun l' t' h => ends l' t' (h.later comes stores)
        exact ⟨v :: vs, e, u, .stored comes stores filled⟩

/-- What ends with an error ends with that of the leaf after those that were stored, or of its
place. -/
theorem stops {e : EvalError} (h : Fills host session a outer ls s vs (some e) u) :
    ∃ l t e₀, Reaches host session a outer ls s l t ∧ ls[vs.length]? = some l ∧
      e = e₀.orSpan l.span ∧
      (ComesTo host session l.node (t.filling (⟨a, l.path.dropLast⟩ :: outer)) (.error (.failed e₀)) u ∨
        ∃ v w, ComesTo host session l.node (t.filling (⟨a, l.path.dropLast⟩ :: outer)) (.ok v) u ∧
          World.setElement a l.path v u.world = (.error (.failed e₀), w)) := by
  generalize he : some e = e' at h
  induction h with
  | done => cases he
  | stored comes stores _ ih =>
    obtain ⟨l, t, e₀, reached, found, same, ended⟩ := ih he
    exact ⟨l, t, e₀, reached.later comes stores, found, same, ended⟩
  | failed comes => cases he; exact ⟨_, _, _, ⟨[], _, [], rfl, .done _⟩, rfl, rfl, .inl comes⟩
  | refused comes refuses =>
    cases he
    exact ⟨_, _, _, ⟨[], _, [], rfl, .done _⟩, rfl, rfl, .inr ⟨_, _, comes, refuses⟩⟩

end Fills

/-- An array is full whose leaves are in row-major order. -/
theorem World.Holds.elements_eq {w : World σ} {blank : Value} {ls : List InitialItem} {vs : List Value}
    (h : w.Holds a ns blank (ls.zip vs)) (full : vs.length = ls.length)
    (paths : ls.map InitialItem.path = (List.range (elementCount ns)).map (ArrayCell.indicesAt ns)) :
    w.elements a = vs := by
  obtain ⟨cell, found, rfl⟩ := h.lengths
  have count : ls.length = elementCount cell.lengths := by simpa using congrArg List.length paths
  refine List.ext_getElem (by rw [World.length_elements found, full, count]) fun k hk hk' => ?_
  have bound : k < elementCount cell.lengths := World.length_elements found ▸ hk
  have hl : k < ls.length := full ▸ hk'
  have place : ls[k].path = ArrayCell.indicesAt cell.lengths k := by
    have := List.getElem_of_eq paths (i := k) (by simpa using hl)
    simpa using this
  obtain ⟨v, there, read⟩ := World.getElem?_elements found (ArrayCell.flatIndex_indicesAt bound)
  have paired : (ls[k], vs[k]) ∈ ls.zip vs := List.mem_iff_getElem.2 ⟨k, by simp [hl, hk'], by simp⟩
  have stored := (h.items _ paired).2
  rw [place, read] at stored
  obtain ⟨_, rfl⟩ := List.getElem?_eq_some_iff.1 there
  exact Except.ok.inj stored

namespace Makes

variable {holds : σ → Nat → Prop} {inits : List ArrayInit} {initializer : Node}
  {ls : List InitialItem} {vs : List Value} {u : Machine σ} (discreet : host.Discreet holds)
  (hs : s.Discreet (.nothing holds) inits)
  (makes : Makes host session element rank dimensions initializer s type ns a s')

include discreet hs makes

theorem secret : s'.Discreet (.only a holds) inits ∧
    s'.world.cell? a = some (.filled ns type.defaultValue) := by
  obtain ⟨n, s₁, lengths, made⟩ := makes.lengths
  have measured : Run.Obeys ((Secrecy.nothing holds).machine inits)
      ((Context.within host n session).newLengths rank dimensions (some initializer)) s
      fun _ _ => True :=
    (Context.within_discreet discreet n session).newLengths hs rank fun _ _ => .inl fun _ _ => nofun
  have hs₁ := measured.inv
  rw [lengths] at hs₁
  refine ⟨hs₁.newArray made, ?_⟩
  cases made
  simp [World.cell?]

variable (plain : ∀ l ∈ ls, l.node.Sealed) (paths : (ls.map InitialItem.path).Nodup)

include plain paths

/-- However the filling of the array ends, it holds the values of the leaves up to there. -/
theorem contents {e : Option EvalError} (filled : Fills host session a inits ls s' vs e u) :
    u.world.Holds a ns type.defaultValue (ls.zip vs) := by
  obtain ⟨hs', found⟩ := makes.secret discreet hs
  obtain ⟨cell, found', same, items, others⟩ :=
    filled.contents (S := .only a holds) discreet rfl plain paths hs' found
  refine ⟨⟨cell, found', same⟩, fun p hp => ?_, fun is within apart => ?_⟩
  · obtain ⟨within, stored⟩ := items p hp
    exact ⟨within, by simpa only [World.getElement, found']⟩
  · simp only [World.getElement, found', others is apart]
    exact ArrayCell.get_filled within

theorem inRange (filled : Fills host session a inits ls s' vs none u) :
    ∀ l ∈ ls, ArrayCell.InRange ns l.path := by
  intro l hl
  obtain ⟨k, hk, rfl⟩ := List.mem_iff_getElem.1 hl
  have hk' : k < vs.length := filled.length_eq ▸ hk
  have paired : (ls[k], vs[k]) ∈ ls.zip vs := List.mem_iff_getElem.2 ⟨k, by simp [hk, hk'], by simp⟩
  exact ((makes.contents discreet hs plain paths filled).items _ paired).1

theorem stops {e : EvalError} (filled : Fills host session a inits ls s' vs (some e) u) :
    ∃ l t e₀, Fills.Reaches host session a inits ls s' l t ∧ ls[vs.length]? = some l ∧
      e = e₀.orSpan l.span ∧
      (ComesTo host session l.node (t.filling (⟨a, l.path.dropLast⟩ :: inits)) (.error (.failed e₀)) u ∨
        ¬ArrayCell.InRange ns l.path ∧ ArrayCell.flatIndex ns l.path = .error e₀ ∧
          ∃ v, ComesTo host session l.node (t.filling (⟨a, l.path.dropLast⟩ :: inits)) (.ok v) u) := by
  obtain ⟨l, t, e₀, turn, found, same, failed | ⟨v, w, evaluated, refused⟩⟩ := filled.stops
  · exact ⟨l, t, e₀, turn, found, same, .inl failed⟩
  · obtain ⟨cell, there, rfl⟩ := (makes.contents discreet hs plain paths filled).lengths
    have he := World.flatIndex_of_setElement there refused
    refine ⟨l, t, e₀, turn, found, same, .inr ⟨fun within => ?_, he, v, evaluated⟩⟩
    obtain ⟨k, hk⟩ := ArrayCell.inRange_iff.1 within
    rw [hk] at he
    cases he

end Makes

theorem Makes.lengths_of_rectangular {initializer : Node}
    (makes : Makes host session element rank [] initializer s type ns a s') {ms : List Nat}
    (rectangular : initializer.Rectangular ms) (hr : ms.length = rank)
    (nonempty : ∀ n ∈ ms.dropLast, n ≠ 0) : ns = ms := by
  obtain ⟨n, s₁, lengths, -⟩ := makes.lengths
  subst hr
  cases lengths
  exact Node.initializerShape_of_rectangular rectangular nonempty

/-- Take a creation with an initializer whose leaves hold initializers only in creations of their
own, under a host that makes up no arrays, and let its array be made. Then the creation comes to
what its leaves come to, each evaluated once and stored before the next one, from left to right.
However far they come, the values of the leaves are at their paths in the array, which are in
range, and everything else is a default; if there is an error, it is that of the leaf after
those, or the leaf has no place in the array. If every leaf that is reached comes to an answer,
the creation comes to one: to an error if a leaf has no place, and to the array if all have one
and come to values. And without dimensions, the array has the shape of a rectangular initializer,
its places are taken in order, and its elements are the values of the leaves. -/
theorem creation_fills (span : Span) {holds : σ → Nat → Prop} (discreet : host.Discreet holds)
    {inits : List ArrayInit} (hs : s.Discreet (.nothing holds) inits)
    (plain : ∀ l ∈ Node.initialItemsFrom own [] 0 items, l.node.Sealed)
    (makes : Makes host session element rank dimensions (.mk own (.arrayInitializer items)) s type ns
      a s') :
    let initializer := Node.mk own (.arrayInitializer items)
    let creation := Node.mk span (.arrayCreation element rank dimensions (some initializer))
    let leaves := Node.initialItemsFrom own [] 0 items
    let fills := Fills host session a inits leaves s'
    let reaches := Fills.Reaches host session a inits leaves s'
    let inside (l : InitialItem) (t : Machine σ) := t.filling (⟨a, l.path.dropLast⟩ :: inits)
    (∀ r t, ComesTo host session creation s r t ↔
      ∃ vs e u, fills vs e u ∧ r = Fills.answer a e ∧ t = u.filling inits) ∧
    (∀ vs e u, fills vs e u → u.world.Holds a ns type.defaultValue (leaves.zip vs) ∧
      (e = none → vs.length = leaves.length) ∧
      ∀ e', e = some e' → ∃ l t e₀, reaches l t ∧ leaves[vs.length]? = some l ∧ e' = e₀.orSpan l.span ∧
        (ComesTo host session l.node (inside l t) (.error (.failed e₀)) u ∨
          ¬ArrayCell.InRange ns l.path ∧ ArrayCell.flatIndex ns l.path = .error e₀ ∧
            ∃ v, ComesTo host session l.node (inside l t) (.ok v) u)) ∧
    ((∀ l t, reaches l t → ∃ r u, ComesTo host session l.node (inside l t) r u) →
      ∃ r t, ComesTo host session creation s r t) ∧
    (∀ l ∈ leaves, ¬ArrayCell.InRange ns l.path →
      ∀ r t, ComesTo host session creation s r t → ∃ e, r = .error (.failed e)) ∧
    ((∀ l ∈ leaves, ArrayCell.InRange ns l.path) →
      (∀ l t, reaches l t → ∃ v u, ComesTo host session l.node (inside l t) (.ok v) u) →
      ∃ vs u, fills vs none u ∧ ComesTo host session creation s (.ok (.array a)) (u.filling inits)) ∧
    ∀ ms, dimensions = [] → initializer.Rectangular ms → ms.length = rank →
      (∀ n ∈ ms.dropLast, n ≠ 0) → ns = ms ∧
      leaves.map InitialItem.path = (List.range (elementCount ms)).map (ArrayCell.indicesAt ms) ∧
      (∀ l ∈ leaves, ArrayCell.InRange ms l.path) ∧
      ∀ vs u, fills vs none u → u.world.elements a = vs := by
  intro initializer creation leaves fills reaches inside
  have comes (r : Except Stop Value) (t : Machine σ) : ComesTo host session creation s r t ↔
      ∃ vs e u, fills vs e u ∧ r = Fills.answer a e ∧ t = u.filling inits :=
    comesTo_creation makes (makes.secret discreet hs).1.inits r t
  have paths : (leaves.map InitialItem.path).Nodup := Node.nodup_pathsFrom own [] 0 items
  refine ⟨comes, fun vs e u filled => ⟨makes.contents discreet hs plain paths filled, ?_, ?_⟩,
    fun ends => ?_, fun l hl out r t ended => ?_, fun within ends => ?_,
    fun ms hd rectangular hr nonempty => ?_⟩
  · rintro rfl
    exact filled.length_eq
  · rintro e' rfl
    exact makes.stops discreet hs plain paths filled
  · obtain ⟨vs, e, u, filled⟩ := Fills.exists_of_reaches ends
    exact ⟨_, _, (comes _ _).2 ⟨vs, e, u, filled, rfl, rfl⟩⟩
  · obtain ⟨vs, e, u, filled, rfl, -⟩ := (comes r t).1 ended
    cases e with
    | none => exact absurd (makes.inRange discreet hs plain paths filled l hl) out
    | some e => exact ⟨e, rfl⟩
  · obtain ⟨vs, e, u, filled⟩ := Fills.exists_of_reaches fun l t turn =>
      let ⟨v, u, evaluated⟩ := ends l t turn
      ⟨.ok v, u, evaluated⟩
    cases e with
    | none => exact ⟨vs, u, filled, (comes _ _).2 ⟨vs, none, u, filled, rfl, rfl⟩⟩
    | some e =>
      obtain ⟨l, t, e₀, turn, found, -, failed | ⟨out, -⟩⟩ := makes.stops discreet hs plain paths filled
      · obtain ⟨v, u', evaluated⟩ := ends l t turn
        exact nomatch (failed.unique evaluated).1
      · exact absurd (within l (List.mem_of_getElem? found)) out
  · subst hd
    obtain rfl := makes.lengths_of_rectangular rectangular hr nonempty
    have order : leaves.map InitialItem.path =
        (List.range (elementCount ns)).map (ArrayCell.indicesAt ns) :=
      Node.paths_of_rectangular rectangular span []
    refine ⟨rfl, order, fun l hl => ?_, fun vs u filled => ?_⟩
    · have listed := List.mem_map_of_mem (f := InitialItem.path) hl
      rw [order] at listed
      obtain ⟨k, hk, place⟩ := List.mem_map.1 listed
      exact ArrayCell.inRange_iff.2 ⟨k, place ▸ ArrayCell.flatIndex_indicesAt (List.mem_range.1 hk)⟩
    · exact (makes.contents discreet hs plain paths filled).elements_eq filled.length_eq order

end

namespace grid

def node (op : Op) : Node := .mk .dummy op

def number (n : BitVec 32) : Node := node (.literal (.int .i32 n))

def level (items : List Node) : Node := node (.arrayInitializer items)

/-- `new object[,…] …`, with the shape of the initializer. -/
def creation (rank : Nat) (items : List Node) : Node :=
  node (.arrayCreation (.primitive .object) rank [] (some (level items)))

def host : Host Scripted.State := Scripted.Program.host ⟨[], []⟩

theorem number_comesTo (n : BitVec 32) (s : Machine Scripted.State) :
    ComesTo host ⟨0⟩ (number n) s (.ok (.int .i32 n)) s := ⟨nofun, 1, rfl⟩

/-- Nothing has been made. -/
def start : Machine Scripted.State := ⟨.initial Scripted.State.initial, .start ⟨0⟩ none⟩

/-- The array that is made first. -/
def made (ns : List Nat) : ArrayRef × Machine Scripted.State := start.newArray (.primitive .object) ns

theorem start_discreet : start.Discreet (.nothing Scripted.State.holds) [] where
  world := .initial (fun _ => id) fun _ => nofun
  activation := .start ⟨0⟩ none
  inits := rfl

/-- `{ { 1 }, { new object[] { 7 } } }`. -/
def rows : List Node := [level [number 1], level [creation 1 [number 7]]]

/-- The rows come one after another, also if an element is an array with an initializer itself. -/
theorem rows_comeTo :
    let (a, s) := made [2, 1]
    host.Discreet Scripted.State.holds ∧ start.Discreet (.nothing Scripted.State.holds) [] ∧
      (∀ l ∈ Node.initialItemsFrom .dummy [] 0 rows, l.node.Sealed) ∧
      Makes host ⟨0⟩ (.primitive .object) 2 [] (level rows) start (.primitive .object) [2, 1] a s ∧
      ∃ t, ComesTo host ⟨0⟩ (creation 2 rows) start (.ok (.array a)) t ∧
        t.world.elements a = [.i32 1, .array ⟨1, .primitive .object, 1⟩] := by
  have discreet : host.Discreet Scripted.State.holds :=
    Scripted.Program.host_discreet (p := ⟨[], []⟩) fun _ h => absurd h List.not_mem_nil
  have plain : ∀ l ∈ Node.initialItemsFrom .dummy [] 0 rows, l.node.Sealed :=
    List.forall_mem_cons.2 ⟨.other nofun nofun, List.forall_mem_singleton.2 (.creation nofun)⟩
  have makes : Makes host ⟨0⟩ (.primitive .object) 2 [] (level rows) start (.primitive .object) [2, 1]
      (made [2, 1]).1 (made [2, 1]).2 := ⟨rfl, ⟨1, start, rfl, rfl⟩, rfl⟩
  have shape : (level rows).Rectangular [2, 1] := by
    refine ⟨rows, rfl, rfl, List.forall_mem_cons.2 ⟨?_, List.forall_mem_singleton.2 ?_⟩⟩ <;>
      exact ⟨_, rfl, rfl, List.forall_mem_singleton.2 rfl⟩
  obtain ⟨comes, -, -, -, -, rectangular⟩ := creation_fills .dummy discreet start_discreet plain makes
  obtain ⟨-, -, -, elements⟩ := rectangular [2, 1] rfl shape rfl (by simp)
  have filled : ∃ u, Fills host ⟨0⟩ (made [2, 1]).1 [] (Node.initialItemsFrom .dummy [] 0 rows)
      (made [2, 1]).2 [.i32 1, .array ⟨1, .primitive .object, 1⟩] none u :=
    ⟨_, .stored (number_comesTo 1 _) rfl (.stored ⟨nofun, 4, rfl⟩ rfl (.done _))⟩
  obtain ⟨u, filled⟩ := filled
  exact ⟨discreet, start_discreet, plain, makes, u.filling [],
    (comes _ _).2 ⟨_, none, u, filled, rfl, rfl⟩, elements _ u filled⟩

/-- `{ 1, null ?? { 7 } }`. -/
def stray : List Node := [number 1, node (.coalesce (node (.literal .null)) (level [number 7]))]

/-- An initializer that belongs to no creation fills the array that is being filled, and takes the
place of what was stored there. -/
theorem stray_overwrites :
    let (a, s) := made [2]
    (level stray).Rectangular [2] ∧
      Makes host ⟨0⟩ (.primitive .object) 1 [] (level stray) start (.primitive .object) [2] a s ∧
      ∃ u, Fills host ⟨0⟩ a [] (Node.initialItemsFrom .dummy [] 0 stray) s [.i32 1, .void] none u ∧
        ComesTo host ⟨0⟩ (creation 1 stray) start (.ok (.array a)) (u.filling []) ∧
        u.world.elements a = [.i32 7, .void] := by
  have shape : (level stray).Rectangular [2] :=
    ⟨stray, rfl, rfl, List.forall_mem_cons.2 ⟨rfl, List.forall_mem_singleton.2 rfl⟩⟩
  have makes : Makes host ⟨0⟩ (.primitive .object) 1 [] (level stray) start (.primitive .object) [2]
      (made [2]).1 (made [2]).2 := ⟨rfl, ⟨1, start, rfl, rfl⟩, rfl⟩
  have filled : ∃ u, Fills host ⟨0⟩ (made [2]).1 [] (Node.initialItemsFrom .dummy [] 0 stray)
      (made [2]).2 [.i32 1, .void] none u ∧ u.world.elements (made [2]).1 = [.i32 7, .void] :=
    ⟨_, .stored (number_comesTo 1 _) rfl (.stored ⟨nofun, 4, rfl⟩ rfl (.done _)), rfl⟩
  obtain ⟨u, filled, elements⟩ := filled
  exact ⟨shape, makes, u, filled,
    (comesTo_creation makes rfl _ _).2 ⟨_, none, u, filled, rfl, rfl⟩, elements⟩

end grid

end OpTree
