import FiberLoop.Proofs.Queues.Stocking
import Mathlib.Algebra.Order.Group.Multiset
import Mathlib.Tactic.Abel

/-!
# Every item is in one place

A stock is in balance if each item that was placed is in one place, or set aside for a moment (`Stock.Balanced`). An
item that is set aside comes to a take or to the buffer, or is left out (`Balanced.bring`); so placing an item, taking
one, giving one back and ending a take all keep the balance.
-/

namespace FiberLoop

namespace Stock

variable {S : Stock} {p : Overflow} {V W : Visit} {pre post : List Visit} {which : Visit → Bool} {change : Visit → Visit}
  {item : Item} {aside : List Item} {l : DeferredId} {f : FiberId} {v : Value} {x : Exit Value Value}

/-- Each item that was placed is in one place, but for those set aside. -/
structure Balanced (p : Overflow) (aside : List Item) (S : Stock) : Prop where
  all : (aside ++ S.all).Perm S.items
  /-- Only a policy that has a limit leaves anything out. -/
  discarded : p.limit? = none → S.discarded = []

theorem nodup_items (S : Stock) : S.items.Nodup := by
  refine List.Nodup.of_map Item.place ?_
  have hplaces : S.items.map Item.place = List.range S.placed.length := by
    refine List.ext_getElem (by simp [items]) fun i _ _ => ?_
    simp [items]
  rw [hplaces]
  exact List.nodup_range

theorem Balanced.empty (p : Overflow) : Balanced p [] {} := ⟨.refl _, fun _ => rfl⟩

/-! ## Parts -/

/-- What is known of one take changes. -/
theorem revise_of_split (h : S.visits = pre ++ V :: post) (hV : which V = true)
    (hothers : ∀ W ∈ pre ++ post, which W = false) :
    S.revise which change = { S with visits := pre ++ change V :: post } := by
  have hsame (visits : List Visit) (hnone : ∀ W ∈ visits, which W = false) :
      visits.map (fun V => if which V then change V else V) = visits := by
    refine (List.map_congr_left fun W hW => ?_).trans (List.map_id _)
    rw [hnone W hW]
    rfl
  obtain ⟨hpre, hpost⟩ := List.forall_mem_append.1 hothers
  rw [revise, h, List.map_append, List.map_cons, hsame pre hpre, hsame post hpost, if_pos hV]

/-- What one take holds, and what the others hold. -/
theorem held_of_split (h : S.visits = pre ++ V :: post) :
    (S.held : Multiset Item) = V.item?.toList + (pre ++ post).filterMap Visit.item? := by
  rw [held, h, Multiset.coe_add, Multiset.coe_eq_coe, List.filterMap_append, List.filterMap_cons, List.filterMap_append]
  cases V.item? with
  | none => exact .refl _
  | some item => exact List.perm_middle

theorem coe_all (S : Stock) :
    (S.all : Multiset Item) = S.delivered + S.buffer + S.held + S.discarded := by
  simp only [all, Multiset.coe_add]

theorem balanced_iff : S.Balanced p aside ↔
    (aside : Multiset Item) + (S.delivered + S.buffer + S.held + S.discarded) = S.items ∧
      (p.limit? = none → S.discarded = []) := by
  rw [← coe_all, Multiset.coe_add, Multiset.coe_eq_coe]
  exact ⟨fun h => ⟨h.all, h.discarded⟩, fun h => ⟨h.1, h.2⟩⟩

/-- One take gets an item that was set aside, or sets aside what it holds. -/
theorem Balanced.hand (h : S.Balanced p aside) (hsplit : S.visits = pre ++ V :: post) {aside' : List Item}
    (hsum : (aside' : Multiset Item) + W.item?.toList = aside + V.item?.toList) :
    Balanced p aside' { S with visits := pre ++ W :: post } := by
  rw [balanced_iff] at h ⊢
  refine ⟨?_, h.2⟩
  rw [held_of_split (S := { S with visits := pre ++ W :: post }) rfl]
  rw [held_of_split hsplit] at h
  refine Eq.trans ?_ h.1
  calc (aside' : Multiset Item) + (S.delivered + S.buffer + (W.item?.toList + (pre ++ post).filterMap Visit.item?) + S.discarded)
    _ = (aside' + W.item?.toList) + (S.delivered + S.buffer + (pre ++ post).filterMap Visit.item? + S.discarded) := by abel
    _ = aside + (S.delivered + S.buffer + (V.item?.toList + (pre ++ post).filterMap Visit.item?) + S.discarded) := by
      rw [hsum]
      abel

/-- The buffer changes, and something is left out. -/
theorem Balanced.rebuffer (h : S.Balanced p aside) {aside' buffer spilt : List Item}
    (hsum : (aside' : Multiset Item) + buffer + spilt = aside + S.buffer) (hspilt : p.limit? = none → spilt = []) :
    Balanced p aside' { S with buffer := buffer, discarded := S.discarded ++ spilt } := by
  rw [balanced_iff] at h ⊢
  refine ⟨?_, fun hp => by rw [h.2 hp, hspilt hp]; rfl⟩
  refine Eq.trans ?_ h.1
  calc (aside' : Multiset Item) + (S.delivered + buffer + S.held + (S.discarded ++ spilt : List Item))
    _ = (aside' + buffer + spilt) + (S.delivered + S.held + S.discarded) := by
      rw [← Multiset.coe_add]
      abel
    _ = aside + (S.delivered + S.buffer + S.held + S.discarded) := by
      rw [hsum]
      abel

/-! ## What happens to items -/

/-- An item that was set aside comes to the first in line. -/
theorem Balanced.bring_first (h : S.Balanced p [item]) (hsplit : S.visits = pre ++ V :: post) (hnone : V.item? = none) :
    Balanced p [] { S with visits := pre ++ { V with item? := some item } :: post } := by
  refine h.hand hsplit ?_
  rw [hnone]
  rfl

theorem Balanced.push (h : S.Balanced p [item]) :
    Balanced p [] { S with buffer := p.push S.buffer item, discarded := S.discarded ++ p.spill S.buffer item } :=
  h.rebuffer (Multiset.coe_eq_coe.2 (p.push_perm S.buffer item)) fun hp => Overflow.spill_eq_nil hp ..

theorem Balanced.restore (h : S.Balanced p [item]) : Balanced p []
    { S with buffer := p.restore S.buffer item, discarded := S.discarded ++ p.spillBack S.buffer item } :=
  h.rebuffer (Multiset.coe_eq_coe.2 (p.restore_perm S.buffer item)) fun hp => Overflow.spillBack_eq_nil hp ..

/-- A new item is set aside. -/
theorem Balanced.place (h : S.Balanced p []) (v : Value) :
    Balanced p [⟨S.placed.length, v⟩] { S with placed := S.placed ++ [v] } := by
  refine ⟨?_, h.discarded⟩
  have hitems : items { S with placed := S.placed ++ [v] } = S.items ++ [⟨S.placed.length, v⟩] := List.mapIdx_concat
  rw [hitems]
  have hlast (item : Item) : ([item] ++ S.all).Perm (S.all ++ [item]) := List.perm_append_comm
  exact (hlast _).trans (h.all.append_right _)

/-- A take gets the oldest item. -/
theorem Balanced.pop (h : S.Balanced p []) {rest : List Item} (hbuffer : S.buffer = item :: rest)
    (hsplit : S.visits = pre ++ V :: post) (hnone : V.item? = none) :
    Balanced p [] { S with buffer := rest, visits := pre ++ { V with item? := some item } :: post } := by
  have hfirst : Balanced p [item] { S with buffer := rest, discarded := S.discarded ++ [] } := by
    refine h.rebuffer ?_ fun _ => rfl
    rw [hbuffer, Multiset.coe_nil, add_zero, zero_add]
    rfl
  have hsame : ({ S with buffer := rest, discarded := S.discarded ++ [] } : Stock) = { S with buffer := rest } := by
    rw [List.append_nil]
  rw [hsame] at hfirst
  exact hfirst.bring_first hsplit hnone

/-- A take gives up. -/
theorem Balanced.giveUp (h : S.Balanced p []) (hsplit : S.visits = pre ++ V :: post) :
    Balanced p V.item?.toList { S with visits := pre ++ { V with item? := none, undone := true } :: post } := by
  refine h.hand hsplit ?_
  rw [Multiset.coe_nil, zero_add]
  exact add_zero _

/-- A take begins. -/
theorem Balanced.receive (h : S.Balanced p []) (hnone : V.item? = none) :
    Balanced p [] { S with visits := S.visits ++ [V] } := by
  have hheld : held { S with visits := S.visits ++ [V] } = S.held := by
    rw [held, List.filterMap_append, List.filterMap_cons_none hnone]
    exact List.append_nil _
  rw [balanced_iff] at h ⊢
  rw [hheld]
  exact h

/-- What takes hold is what those hold that are over, and what the others hold. -/
theorem perm_leave (exit? : Visit → Option (Exit Value Value)) (visits : List Visit) :
    ((visits.filterMap fun V => (exit? V).map (V, ·)).filterMap (·.1.item?) ++
      (visits.filter fun V => (exit? V).isNone).filterMap Visit.item?).Perm (visits.filterMap Visit.item?) := by
  induction visits with
  | nil => exact .refl _
  | cons V rest ih =>
    cases hexit : exit? V with
    | none =>
      rw [List.filterMap_cons_none (by rw [hexit]; rfl), List.filter_cons_of_pos (by rw [hexit]; rfl)]
      cases hitem : V.item? with
      | none => rwa [List.filterMap_cons_none hitem, List.filterMap_cons_none hitem]
      | some item =>
        rw [List.filterMap_cons_some hitem, List.filterMap_cons_some hitem]
        exact List.perm_middle.trans (ih.cons item)
    | some x =>
      rw [List.filterMap_cons_some (by rw [hexit]; rfl), List.filter_cons_of_neg (by rw [hexit]; exact Bool.false_ne_true),
        List.filterMap_cons, List.filterMap_cons]
      cases V.item? with
      | none => exact ih
      | some item => exact ih.cons item

/-- Some takes are over. -/
theorem Balanced.leave (h : S.Balanced p aside) (a : Activity) : Balanced p aside (S.leave a) := by
  have hparts : ((S.leave a).delivered : Multiset Item) + (S.leave a).held = S.delivered + S.held := by
    rw [delivered, Stock.leave, List.filterMap_append, ← Multiset.coe_add, add_assoc]
    exact congrArg _ (Multiset.coe_eq_coe.2 (perm_leave _ S.visits))
  rw [balanced_iff] at h ⊢
  refine ⟨Eq.trans ?_ h.1, h.2⟩
  calc (aside : Multiset Item) + ((S.leave a).delivered + S.buffer + (S.leave a).held + S.discarded)
    _ = aside + ((S.leave a).delivered + (S.leave a).held + S.buffer + S.discarded) := by abel
    _ = aside + (S.delivered + S.buffer + S.held + S.discarded) := by
      rw [hparts]
      abel

end Stock

end FiberLoop
