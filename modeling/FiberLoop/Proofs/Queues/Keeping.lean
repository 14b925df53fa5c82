import FiberLoop.Proofs.Queues.Balancing
import FiberLoop.Proofs.Queues.Lining

/-!
# A queue and its stock

A stock is kept at a queue if the buffer of the queue is what the stock says, each latch in the line is that of a take
in progress that waits for an item, and a take that has been handed one holds it (`Stock.Kept`). The theorems of this
module say that everything that happens to the queue keeps the stock, whatever the policy: an item comes to it, a take
comes to it and finds an item or does not, a take gives up, and a take is over.
-/

namespace FiberLoop

open World

namespace Stock

variable {S : Stock} {p : Overflow} {V W : Visit} {item : Item} {aside : List Item} {l latch : DeferredId} {f : FiberId}
  {v : Value} {L L' : List DeferredId} {q : QueueId} {row : Queue} {w w' : World} {items : List Value}
  {which : Visit → Bool} {change : Visit → Visit}

/-- All takes, those in progress and those that are over. -/
def takes (S : Stock) : List Visit := S.visits ++ S.ended.map Prod.fst

/-- Each fiber is in one take at most, and each latch is that of one take. -/
structure Apart (L : List DeferredId) (S : Stock) : Prop where
  fibers : (S.visits.map Visit.fiber).Nodup
  latches : (S.takes.filterMap Visit.latch?).Nodup
  known : ∀ V ∈ S.takes, ∀ l, V.latch? = some l → l ∈ L

/-- A stock is kept at a queue, with some items set aside for a moment. -/
structure Kept (q : QueueId) (L : List DeferredId) (row : Queue) (aside : List Item) (S : Stock) (w : World) : Prop where
  lined : w.Lined q L row
  /-- The queue holds the items in the buffer, or those in the line wait. -/
  state : row.state = .ready (S.buffer.map Item.value) ∨ S.buffer = [] ∧ row.state.line ≠ []
  apart : S.Apart L
  /-- A latch in the line is that of a take in progress without an item. -/
  owned : ∀ l ∈ row.state.line, ∃ V ∈ S.visits, V.latch? = some l ∧ V.item? = none ∧ V.undone = false
  /-- The latch of a take is completed with the item of the take. -/
  latched : ∀ V ∈ S.visits, V.undone = false → ∀ l, V.latch? = some l →
    w.pollDeferred l = V.item?.map fun item => .value item.value
  balanced : S.Balanced row.policy aside

/-! ## Takes -/

theorem mem_revise : W ∈ (S.revise which change).visits ↔ ∃ V ∈ S.visits, (if which V then change V else V) = W :=
  List.mem_map

/-- A take that is not meant stays as it is. -/
theorem mem_revise_of_not (hV : V ∈ S.visits) (h : which V = false) : V ∈ (S.revise which change).visits :=
  mem_revise.2 ⟨V, hV, by rw [h]; rfl⟩

theorem map_revise {α : Type} (get : Visit → α) (h : ∀ V, get (change V) = get V) :
    (S.revise which change).visits.map get = S.visits.map get := by
  rw [revise, List.map_map]
  refine List.map_congr_left fun V _ => ?_
  rw [Function.comp_apply]
  split
  · exact h V
  · rfl

theorem filterMap_revise {α : Type} (get : Visit → Option α) (h : ∀ V, get (change V) = get V) :
    (S.revise which change).visits.filterMap get = S.visits.filterMap get := by
  rw [revise, List.filterMap_map]
  refine List.filterMap_congr fun V _ => ?_
  rw [Function.comp_apply]
  split
  · exact h V
  · rfl

/-- Takes that are over stay takes. -/
theorem perm_takes_leave (S : Stock) (a : Activity) : (S.leave a).takes.Perm S.takes := by
  have hsplit (visits : List Visit) (exit? : Visit → Option (Exit Value Value)) :
      (visits.filter (fun V => (exit? V).isNone) ++
        (visits.filterMap fun V => (exit? V).map (V, ·)).map Prod.fst).Perm visits := by
    induction visits with
    | nil => exact .refl _
    | cons V rest ih =>
      cases hexit : exit? V with
      | none =>
        rw [List.filterMap_cons_none (by rw [hexit]; rfl), List.filter_cons_of_pos (by rw [hexit]; rfl)]
        exact ih.cons V
      | some x =>
        rw [List.filterMap_cons_some (by rw [hexit]; rfl), List.filter_cons_of_neg (by rw [hexit]; exact Bool.false_ne_true)]
        exact List.perm_middle.trans (ih.cons V)
  have hleft := hsplit S.visits fun V => a.exitFrom? V.fiber V.base.frames.length
  rw [takes, takes, Stock.leave, List.map_append]
  refine (List.perm_append_comm.append_left _).trans ?_
  rw [← List.append_assoc]
  exact hleft.append_right _

namespace Apart

variable (h : S.Apart L)
include h

/-- The takes of a fiber are one. -/
theorem eq_of_fiber (hV : V ∈ S.visits) (hW : W ∈ S.visits) (hf : W.fiber = V.fiber) : W = V :=
  List.inj_on_of_nodup_map h.fibers hW hV hf

theorem eq_of_latch (hV : V ∈ S.visits) (hW : W ∈ S.visits) (hlV : V.latch? = some l) (hlW : W.latch? = some l) :
    W = V := by
  have hvisits : (S.visits.filterMap Visit.latch?).Nodup := by
    have htakes := h.latches
    rw [takes, List.filterMap_append] at htakes
    exact (List.nodup_append.1 htakes).1
  exact eq_of_nodup_filterMap hvisits hW hV hlW hlV

/-- What is known of takes changes, but not their fibers and latches. -/
theorem revise (hfiber : ∀ V, (change V).fiber = V.fiber) (hlatch : ∀ V, (change V).latch? = V.latch?) :
    (S.revise which change).Apart L := by
  have hfibers : (S.revise which change).visits.map Visit.fiber = S.visits.map Visit.fiber := map_revise _ hfiber
  have hlatches : (S.revise which change).takes.filterMap Visit.latch? = S.takes.filterMap Visit.latch? := by
    rw [takes, takes, List.filterMap_append, List.filterMap_append, filterMap_revise _ hlatch]
    rfl
  refine ⟨hfibers ▸ h.fibers, hlatches ▸ h.latches, fun V hV l hl => ?_⟩
  have hmem : l ∈ (S.revise which change).takes.filterMap Visit.latch? := List.mem_filterMap.2 ⟨V, hV, hl⟩
  rw [hlatches] at hmem
  obtain ⟨W, hW, hl'⟩ := List.mem_filterMap.1 hmem
  exact h.known W hW l hl'

/-- A take is alone with its fiber. -/
theorem split (hV : V ∈ S.visits) : ∃ pre post, S.visits = pre ++ V :: post ∧
    ∀ W ∈ pre ++ post, W ∈ S.visits ∧ W.fiber ≠ V.fiber := by
  obtain ⟨pre, post, hsplit⟩ := List.append_of_mem hV
  have hfibers := h.fibers
  rw [hsplit, List.map_append, List.map_cons] at hfibers
  have hmiddle := (List.nodup_middle.1 hfibers)
  obtain ⟨hnot, -⟩ := List.nodup_cons.1 hmiddle
  refine ⟨pre, post, hsplit, fun W hW => ⟨?_, fun he => hnot ?_⟩⟩
  · rw [hsplit]
    rcases List.mem_append.1 hW with hpre | hpost
    · exact List.mem_append_left _ hpre
    · exact List.mem_append_right _ (List.mem_cons_of_mem _ hpost)
  · rw [← List.map_append, ← he]
    exact List.mem_map_of_mem hW

end Apart

/-! ## Items that come to the queue -/

namespace Kept

/-- A change that leaves the queue alone. -/
theorem bypass (h : Kept q L row aside S w) (hpast : w.Bypasses q L w') : Kept q L row aside S w' where
  lined := h.lined.aside hpast
  state := h.state
  apart := h.apart
  owned := h.owned
  latched V hV hopen l hl :=
    (hpast.polls l (h.apart.known V (List.mem_append_left _ hV) l hl)).trans (h.latched V hV hopen l hl)
  balanced := h.balanced

/-- A new item is set aside. -/
theorem place (h : Kept q L row [] S w) (v : Value) :
    Kept q L row [⟨S.placed.length, v⟩] { S with placed := S.placed ++ [v] } w :=
  ⟨h.lined, h.state, ⟨h.apart.fibers, h.apart.latches, h.apart.known⟩, h.owned, h.latched, h.balanced.place v⟩

theorem firstInLine? (h : Kept q L row aside S w) : w.firstInLine? q = row.state.line.head? := by
  rw [World.firstInLine?, queueState?_of_row h.lined.found]
  rfl

/-- The state is what it says, depending on the line. -/
theorem state_of_line (h : Kept q L row aside S w) {rest : List DeferredId} (hline : row.state.line = latch :: rest) :
    row.state = .waiting (latch :: rest) := by
  rcases h.state with hready | -
  · rw [hready] at hline
    cases hline
  · cases hstate : row.state with
    | waiting latches =>
      rw [hstate] at hline
      exact congrArg QueueState.waiting hline
    | ready items =>
      rw [hstate] at hline
      cases hline

theorem ready_of_line (h : Kept q L row aside S w) (hline : row.state.line = []) :
    row.state = .ready (S.buffer.map Item.value) :=
  h.state.resolve_right fun hwaits => hwaits.2 hline

/-- An item that was set aside comes to the first in line. -/
theorem hand (h : Kept q L row [item] S w) (hmade : ∀ l ∈ L, l.index < w.stores.deferreds.size)
    {rest : List DeferredId} (hline : row.state.line = latch :: rest) :
    Kept q L { row with state := .ofLine rest } []
      (S.revise (·.latch? = some latch) fun V => { V with item? := some item })
      ((w.completeDeferred latch (.value item.value)).2.setQueueState q (.ofLine rest)) := by
  have hmem (l : DeferredId) (hl : l ∈ rest) : l ∈ row.state.line := hline ▸ List.mem_cons_of_mem _ hl
  have hfirst : latch ∈ row.state.line := hline ▸ List.mem_cons_self
  have hdistinct := h.lined.distinct
  rw [hline] at hdistinct
  obtain ⟨hlatch, hrest⟩ := List.nodup_cons.1 hdistinct
  have hne (l : DeferredId) (hl : l ∈ rest) : l ≠ latch := by
    rintro rfl
    exact hlatch hl
  have hpoll (l : DeferredId) (hne : l ≠ latch) :
      (w.completeDeferred latch (.value item.value)).2.pollDeferred l = w.pollDeferred l :=
    pollDeferred_completeDeferred_of_ne hne _ _
  obtain ⟨V, hV, hVl, hVitem, hVopen⟩ := h.owned latch hfirst
  have hempty : S.buffer = [] := by
    rcases h.state with hready | hwaits
    · rw [hready] at hline
      cases hline
    · exact hwaits.1
  refine ⟨lined_ofLine ((queue?_completeDeferred ..).trans h.lined.found) (fun l hl => h.lined.known l (hmem l hl))
    (fun l hl => (hpoll l (hne l hl)).trans (h.lined.opened l (hmem l hl))) hrest, ?_,
    h.apart.revise (fun _ => rfl) fun _ => rfl, fun l hl => ?_, fun W hW hopen l hl => ?_, ?_⟩
  · cases rest with
    | nil =>
      refine Or.inl ?_
      show QueueState.ready [] = .ready (S.buffer.map Item.value)
      rw [hempty]
      rfl
    | cons next rest => exact Or.inr ⟨hempty, List.cons_ne_nil _ _⟩
  · rw [QueueState.line_ofLine] at hl
    obtain ⟨W, hW, hWl, hWitem, hWopen⟩ := h.owned l (hmem l hl)
    refine ⟨W, mem_revise_of_not hW (decide_eq_false fun hsame => hne l hl ?_), hWl, hWitem, hWopen⟩
    exact Option.some.inj (hWl.symm.trans hsame)
  · obtain ⟨W', hW', rfl⟩ := mem_revise.1 hW
    by_cases hsame : W'.latch? = some latch
    · rw [if_pos (decide_eq_true hsame)] at hl hopen ⊢
      obtain rfl : latch = l := Option.some.inj (hsame.symm.trans hl)
      obtain ⟨waiters, key, hpending⟩ := pending_of_pollDeferred_none (h.lined.opened latch hfirst)
        (hmade latch (h.lined.known latch hfirst))
      exact pollDeferred_completeDeferred_self hpending _
    · rw [if_neg (by simpa using hsame)] at hl hopen ⊢
      have hother : l ≠ latch := by
        rintro rfl
        exact hsame hl
      exact (hpoll l hother).trans (h.latched W' hW' hopen l hl)
  · obtain ⟨pre, post, hsplit, hothers⟩ := h.apart.split hV
    rw [revise_of_split hsplit (decide_eq_true hVl) fun W hW => ?_]
    · exact h.balanced.bring_first hsplit hVitem
    · obtain ⟨hW', hf⟩ := hothers W hW
      exact decide_eq_false fun hsame => hf (congrArg Visit.fiber (h.apart.eq_of_latch hV hW' hVl hsame))

/-- An item that was set aside comes to the first in line, or to the buffer. -/
theorem bring (h : Kept q L row [item] S w) (hmade : ∀ l ∈ L, l.index < w.stores.deferreds.size)
    {place : Overflow → List Value → Value → List Value} {keep spill : List Item → Item → List Item}
    (hkeep : ∀ buffer, (keep buffer item).map Item.value = place row.policy (buffer.map Item.value) item.value)
    (hfits : ∀ buffer, row.policy.Fits buffer → row.policy.Fits (place row.policy buffer item.value))
    (hbalanced : Balanced row.policy [item] S → Balanced row.policy []
      { S with buffer := keep S.buffer item, discarded := S.discarded ++ spill S.buffer item }) :
    ∃ row', row'.policy = row.policy ∧
      Kept q L row' [] (S.bring (w.firstInLine? q) keep spill item) (w.deliver q item.value place) := by
  rw [h.firstInLine?]
  unfold World.deliver
  rw [h.lined.found]
  dsimp only
  cases hline : row.state.line with
  | cons latch rest =>
    rw [h.state_of_line hline]
    exact ⟨{ row with state := .ofLine rest }, rfl, h.hand hmade hline⟩
  | nil =>
    have hready := h.ready_of_line hline
    rw [hready]
    dsimp only
    rw [← hkeep]
    have hfits' : row.policy.Fits ((keep S.buffer item).map Item.value) := hkeep S.buffer ▸ hfits _ (h.lined.fits _ hready)
    refine ⟨{ row with state := .ready ((keep S.buffer item).map Item.value) }, rfl, ?_⟩
    exact {
      lined := lined_ready h.lined.found hfits'
      state := Or.inl rfl
      apart := ⟨h.apart.fibers, h.apart.latches, h.apart.known⟩
      owned := List.forall_mem_nil _
      latched := h.latched
      balanced := hbalanced h.balanced }

/-- An offer. -/
theorem offer (h : Kept q L row [] S w) (hmade : ∀ l ∈ L, l.index < w.stores.deferreds.size) (v : Value) :
    ∃ row', row'.policy = row.policy ∧
      Kept q L row' [] (S.place row.policy (w.firstInLine? q) v) (w.offerItem q v) :=
  (h.place v).bring hmade (fun buffer => row.policy.map_push Item.value buffer _) (fun _ hfits => hfits.push v)
    Balanced.push

/-- An item is put back. -/
theorem restore (h : Kept q L row [item] S w) (hmade : ∀ l ∈ L, l.index < w.stores.deferreds.size) :
    ∃ row', row'.policy = row.policy ∧
      Kept q L row' [] (S.bring (w.firstInLine? q) row.policy.restore row.policy.spillBack item)
        (w.putBackItem q item.value) :=
  h.bring hmade (fun buffer => row.policy.map_restore Item.value buffer _) (fun _ hfits => hfits.restore item.value)
    Balanced.restore

/-! ## Takes that give up -/

/-- A take gives up whose latch is not in the line. -/
theorem giveUp (h : Kept q L row [] S w) (hV : V ∈ S.visits) (hout : ∀ l, V.latch? = some l → l ∉ row.state.line) :
    Kept q L row V.item?.toList (S.revise (·.fiber = V.fiber) fun V => { V with item? := none, undone := true }) w where
  lined := h.lined
  state := h.state
  apart := h.apart.revise (fun _ => rfl) fun _ => rfl
  owned l hl := by
    obtain ⟨W, hW, hWl, hWitem, hWopen⟩ := h.owned l hl
    refine ⟨W, mem_revise_of_not hW (decide_eq_false fun hsame => ?_), hWl, hWitem, hWopen⟩
    cases h.apart.eq_of_fiber hV hW hsame
    exact hout l hWl hl
  latched W hW hopen l hl := by
    obtain ⟨W', hW', rfl⟩ := mem_revise.1 hW
    by_cases hsame : W'.fiber = V.fiber
    · rw [if_pos (decide_eq_true hsame)] at hopen
      cases hopen
    · rw [if_neg (by simpa using hsame)] at hl hopen ⊢
      exact h.latched W' hW' hopen l hl
  balanced := by
    obtain ⟨pre, post, hsplit, hothers⟩ := h.apart.split hV
    rw [revise_of_split hsplit (decide_eq_true rfl) fun W hW => decide_eq_false (hothers W hW).2]
    exact h.balanced.giveUp hsplit

theorem find?_fiber (h : Kept q L row aside S w) (hV : V ∈ S.visits) : S.visits.find? (·.fiber = V.fiber) = some V := by
  have hsome : (S.visits.find? (·.fiber = V.fiber)).isSome = true := List.find?_isSome.2 ⟨V, hV, by simp⟩
  obtain ⟨W, hfound⟩ := Option.isSome_iff_exists.1 hsome
  obtain rfl : W = V :=
    h.apart.eq_of_fiber hV (List.mem_of_find?_eq_some hfound) (by simpa using List.find?_some hfound)
  exact hfound

/-- What a take gives back. -/
theorem giveBack_eq (h : Kept q L row aside S w) (hV : V ∈ S.visits) (p : Overflow) (first? : Option DeferredId) :
    S.giveBack p V.fiber first? = match V.item? with
      | some item =>
        (S.revise (·.fiber = V.fiber) fun V => { V with item? := none, undone := true }).bring first? p.restore p.spillBack item
      | none => S.revise (·.fiber = V.fiber) fun V => { V with item? := none, undone := true } := by
  rw [giveBack, h.find?_fiber hV]
  rfl

/-- A take gives back an item that it holds. -/
theorem putBack (h : Kept q L row [] S w) (hmade : ∀ l ∈ L, l.index < w.stores.deferreds.size) (hV : V ∈ S.visits)
    (hitem : V.item? = some item) (hout : ∀ l, V.latch? = some l → l ∉ row.state.line) :
    ∃ row', row'.policy = row.policy ∧
      Kept q L row' [] (S.giveBack row.policy V.fiber (w.firstInLine? q)) (w.putBackItem q item.value) := by
  rw [h.giveBack_eq hV, hitem]
  have hleft := h.giveUp hV hout
  rw [hitem] at hleft
  exact hleft.restore hmade

/-- A latch leaves the line. -/
theorem unline (h : Kept q L row [] S w) (hl : l ∈ row.state.line) :
    Kept q L { row with state := .ofLine (row.state.line.erase l) } [] S
      (w.setQueueState q (.ofLine (row.state.line.erase l))) := by
  have hmem (l' : DeferredId) (hl' : l' ∈ row.state.line.erase l) : l' ∈ row.state.line := List.mem_of_mem_erase hl'
  refine ⟨lined_ofLine h.lined.found (fun l' hl' => h.lined.known l' (hmem l' hl'))
    (fun l' hl' => h.lined.opened l' (hmem l' hl')) (h.lined.distinct.erase l), ?_, h.apart, fun l' hl' => ?_, h.latched,
    h.balanced⟩
  · have hempty : S.buffer = [] := by
      rcases h.state with hready | hwaits
      · rw [hready] at hl
        cases hl
      · exact hwaits.1
    cases hline : row.state.line.erase l with
    | nil =>
      refine Or.inl ?_
      show QueueState.ready [] = .ready (S.buffer.map Item.value)
      rw [hempty]
      rfl
    | cons next rest => exact Or.inr ⟨hempty, List.cons_ne_nil _ _⟩
  · rw [QueueState.line_ofLine] at hl'
    exact h.owned l' (hmem l' hl')

/-- A take gives up its latch. -/
theorem abandon (h : Kept q L row [] S w) (hmade : ∀ l ∈ L, l.index < w.stores.deferreds.size) (hV : V ∈ S.visits)
    (hopen : V.undone = false) (hl : V.latch? = some l) :
    ∃ row', row'.policy = row.policy ∧
      Kept q L row' [] (S.giveBack row.policy V.fiber (w.firstInLine? q)) (w.abandonItem q l) := by
  have hpoll := h.latched V hV hopen l hl
  have hout (hnot : l ∉ row.state.line) (l' : DeferredId) (hl' : V.latch? = some l') : l' ∉ row.state.line := by
    cases hl.symm.trans hl'
    exact hnot
  have hreclaim (hnot : l ∉ row.state.line) : ∃ row', row'.policy = row.policy ∧
      Kept q L row' [] (S.giveBack row.policy V.fiber (w.firstInLine? q)) (w.reclaimItem q l) := by
    unfold World.reclaimItem
    rw [hpoll]
    cases hitem : V.item? with
    | some item => exact h.putBack hmade hV hitem (hout hnot)
    | none =>
      rw [h.giveBack_eq hV, hitem]
      have hleft := h.giveUp hV (hout hnot)
      rw [hitem] at hleft
      exact ⟨row, rfl, hleft⟩
  by_cases hin : l ∈ row.state.line
  · have hwaits : row.state = .waiting row.state.line := by
      cases hline : row.state.line with
      | nil =>
        rw [hline] at hin
        cases hin
      | cons latch rest => exact h.state_of_line hline
    have hnone : V.item? = none := by
      rw [h.lined.opened l hin] at hpoll
      exact Option.map_eq_none_iff.1 hpoll.symm
    have hworld : w.abandonItem q l = w.setQueueState q (.ofLine (row.state.line.erase l)) := by
      rw [World.abandonItem, queueState?_of_row h.lined.found, hwaits]
      exact if_pos hin
    have hleft := (h.unline hin).giveUp hV fun l' hl' => by
      cases hl.symm.trans hl'
      rw [QueueState.line_ofLine]
      exact h.lined.distinct.not_mem_erase
    rw [hnone] at hleft
    rw [h.giveBack_eq hV, hnone, hworld]
    exact ⟨{ row with state := .ofLine (row.state.line.erase l) }, rfl, hleft⟩
  · unfold World.abandonItem
    rw [queueState?_of_row h.lined.found]
    split
    · rename_i latches hstate
      have hline : row.state.line = latches := congrArg QueueState.line (Option.some.inj hstate)
      rw [if_neg (hline ▸ hin)]
      exact hreclaim hin
    · exact hreclaim hin

/-! ## Takes that come to the queue -/

/-- A take begins. -/
theorem receive (h : Kept q L row [] S w) (hlatch : V.latch? = none) (hitem : V.item? = none)
    (hnew : ∀ W ∈ S.visits, W.fiber ≠ V.fiber) : Kept q L row [] { S with visits := S.visits ++ [V] } w where
  lined := h.lined
  state := h.state
  apart := by
    refine ⟨?_, ?_, fun W hW l hl => ?_⟩
    · rw [List.map_append]
      refine List.nodup_append.2 ⟨h.apart.fibers, List.pairwise_singleton .., fun f hf f' hf' he => ?_⟩
      obtain ⟨W, hW, rfl⟩ := List.mem_map.1 hf
      cases List.mem_singleton.1 hf'
      exact hnew W hW he
    · have hlatches := h.apart.latches
      rw [takes, List.filterMap_append] at hlatches ⊢
      rw [List.filterMap_append, List.filterMap_cons_none hlatch, List.filterMap_nil, List.append_nil]
      exact hlatches
    · rw [takes] at hW
      rcases List.mem_append.1 hW with hvisit | hover
      · rcases List.mem_append.1 hvisit with hold | hlast
        · exact h.apart.known W (List.mem_append_left _ hold) l hl
        · cases List.mem_singleton.1 hlast
          cases hlatch.symm.trans hl
      · exact h.apart.known W (List.mem_append_right _ hover) l hl
  owned l hl := by
    obtain ⟨W, hW, hrest⟩ := h.owned l hl
    exact ⟨W, List.mem_append_left _ hW, hrest⟩
  latched W hW hopen l hl := by
    rcases List.mem_append.1 hW with hold | hlast
    · exact h.latched W hold hopen l hl
    · cases List.mem_singleton.1 hlast
      cases hlatch.symm.trans hl
  balanced := h.balanced.receive hitem

/-- A take finds an item. -/
theorem pop (h : Kept q L row [] S w) (latch : DeferredId) (hV : V ∈ S.visits) (hlatch : V.latch? = none) (hitem : V.item? = none)
    {rest : List Item} (hbuffer : S.buffer = item :: rest) :
    Kept q L { row with state := .ready (rest.map Item.value) } [] (S.draw V.fiber latch)
      (w.setQueueState q (.ready (rest.map Item.value))) := by
  have hready : row.state = .ready (item.value :: rest.map Item.value) := by
    rcases h.state with hready | hwaits
    · rw [hready, hbuffer]
      rfl
    · cases hbuffer.symm.trans hwaits.1
  have hdraw : S.draw V.fiber latch =
      { S with buffer := rest }.revise (·.fiber = V.fiber) fun V => { V with item? := some item } := by
    rw [draw, hbuffer]
  rw [hdraw]
  refine ⟨h.lined.pop hready, Or.inl rfl, ?_, List.forall_mem_nil _, fun W hW hopen l hl => ?_, ?_⟩
  · have hapart : Apart L { S with buffer := rest } := ⟨h.apart.fibers, h.apart.latches, h.apart.known⟩
    exact hapart.revise (fun _ => rfl) fun _ => rfl
  · obtain ⟨W', hW', rfl⟩ := mem_revise.1 hW
    by_cases hsame : W'.fiber = V.fiber
    · rw [if_pos (decide_eq_true hsame)] at hl
      cases h.apart.eq_of_fiber hV hW' hsame
      cases hlatch.symm.trans hl
    · rw [if_neg (by simpa using hsame)] at hl hopen ⊢
      exact h.latched W' hW' hopen l hl
  · obtain ⟨pre, post, hsplit, hothers⟩ := h.apart.split hV
    rw [revise_of_split (S := { S with buffer := rest }) hsplit (decide_eq_true rfl) fun W hW =>
      decide_eq_false (hothers W hW).2]
    exact h.balanced.pop hbuffer hsplit hitem

/-- A take finds no item, and joins the line with a new latch. -/
theorem park (h : Kept q L row [] S w) (hmade : ∀ l ∈ L, l.index < w.stores.deferreds.size) (hV : V ∈ S.visits)
    (hlatch : V.latch? = none) (hitem : V.item? = none) (hopen : V.undone = false) (hbuffer : S.buffer = []) :
    Kept q (L ++ [w.makeDeferred.1]) { row with state := .waiting (row.state.line ++ [w.makeDeferred.1]) } []
      (S.draw V.fiber w.makeDeferred.1)
      (w.makeDeferred.2.setQueueState q (.waiting (row.state.line ++ [w.makeDeferred.1]))) := by
  obtain ⟨pre, post, hsplit, hothers⟩ := h.apart.split hV
  have hnew (l : DeferredId) (hl : l ∈ L) : l ≠ w.makeDeferred.1 := by
    rintro rfl
    exact Nat.lt_irrefl _ (hmade _ hl)
  have hdraw : S.draw V.fiber w.makeDeferred.1 =
      S.revise (·.fiber = V.fiber) fun V => { V with latch? := some w.makeDeferred.1 } := by
    rw [draw, hbuffer]
  have hparts : S.draw V.fiber w.makeDeferred.1 =
      { S with visits := pre ++ { V with latch? := some w.makeDeferred.1 } :: post } := by
    rw [hdraw]
    exact revise_of_split hsplit (decide_eq_true rfl) fun W hW => decide_eq_false (hothers W hW).2
  -- The takes other than this one are those that were there.
  have hothers' (W : Visit) (hW : W ∈ pre ++ { V with latch? := some w.makeDeferred.1 } :: post) :
      W = { V with latch? := some w.makeDeferred.1 } ∨ W ∈ S.visits := by
    rcases List.mem_append.1 hW with hpre | hpost
    · exact Or.inr (hothers W (List.mem_append_left _ hpre)).1
    · exact (List.mem_cons.1 hpost).imp_right fun hpost => (hothers W (List.mem_append_right _ hpost)).1
  rw [hparts]
  refine ⟨h.lined.park hmade, Or.inr ⟨hbuffer, List.append_ne_nil_of_right_ne_nil _ (List.cons_ne_nil _ _)⟩, ⟨?_, ?_, ?_⟩,
    fun l hl => ?_, fun W hW hWopen l hl => ?_, ?_⟩
  · have hfibers := h.apart.fibers
    rw [hsplit] at hfibers
    rw [List.map_append, List.map_cons] at hfibers ⊢
    exact hfibers
  · have hlatches := h.apart.latches
    have hnot : w.makeDeferred.1 ∉ S.takes.filterMap Visit.latch? := fun hmem => by
      obtain ⟨W, hW, hl⟩ := List.mem_filterMap.1 hmem
      exact hnew _ (h.apart.known W hW _ hl) rfl
    rw [takes, hsplit, List.filterMap_append, List.filterMap_append, List.filterMap_cons_none hlatch, List.append_assoc]
      at hlatches hnot
    have hcons : ({ V with latch? := some w.makeDeferred.1 } :: post).filterMap Visit.latch? =
        w.makeDeferred.1 :: post.filterMap Visit.latch? := rfl
    rw [takes, List.filterMap_append, List.filterMap_append, hcons, List.append_assoc, List.cons_append]
    exact List.nodup_middle.2 (List.nodup_cons.2 ⟨hnot, hlatches⟩)
  · intro W hW l hl
    rcases List.mem_append.1 hW with hvisit | hover
    · rcases hothers' W hvisit with rfl | hold
      · cases hl
        exact List.mem_append_right _ (List.mem_singleton_self _)
      · exact List.mem_append_left _ (h.apart.known W (List.mem_append_left _ hold) l hl)
    · exact List.mem_append_left _ (h.apart.known W (List.mem_append_right _ hover) l hl)
  · rcases List.mem_append.1 hl with hold | hlast
    · obtain ⟨W, hW, hWl, hWrest⟩ := h.owned l hold
      have hne : W.fiber ≠ V.fiber := fun hsame => by
        cases h.apart.eq_of_fiber hV hW hsame
        cases hlatch.symm.trans hWl
      rw [hsplit] at hW
      refine ⟨W, ?_, hWl, hWrest⟩
      rcases List.mem_append.1 hW with hpre | hpost
      · exact List.mem_append_left _ hpre
      · rcases List.mem_cons.1 hpost with rfl | hpost
        · exact absurd rfl hne
        · exact List.mem_append_right _ (List.mem_cons_of_mem _ hpost)
    · cases List.mem_singleton.1 hlast
      exact ⟨_, List.mem_append_right _ List.mem_cons_self, rfl, hitem, hopen⟩
  · rcases hothers' W hW with rfl | hold
    · cases hl
      rw [show ({ V with latch? := some w.makeDeferred.1 } : Visit).item? = none from hitem]
      exact congrArg (Option.bind · Deferred.exit?) ((Table.get?_push ..).trans (if_pos rfl))
    · have hlL := h.apart.known W (List.mem_append_left _ hold) l hl
      refine Eq.trans ?_ (h.latched W hold hWopen l hl)
      exact congrArg (Option.bind · Deferred.exit?)
        ((Table.get?_push ..).trans (if_neg (Nat.ne_of_lt (hmade l hlL))))
  · refine h.balanced.hand hsplit ?_
    rfl

/-! ## Takes that are over -/

/-- Some takes are over, with what they have got. -/
theorem leave (h : Kept q L row [] S w) {a : Activity}
    (hends : ∀ V ∈ S.visits, ∀ x, a.exitFrom? V.fiber V.base.frames.length = some x → V.Ends x) :
    Kept q L row [] (S.leave a) w where
  lined := h.lined
  state := h.state
  apart := by
    have htakes : (S.leave a).takes.Perm S.takes := S.perm_takes_leave a
    refine ⟨h.apart.fibers.sublist (List.filter_sublist.map _), ?_, fun V hV => h.apart.known V (htakes.mem_iff.1 hV)⟩
    exact (htakes.filterMap _).nodup_iff.2 h.apart.latches
  owned l hl := by
    obtain ⟨V, hV, hVl, hVitem, hVopen⟩ := h.owned l hl
    refine ⟨V, List.mem_filter.2 ⟨hV, ?_⟩, hVl, hVitem, hVopen⟩
    cases hexit : a.exitFrom? V.fiber V.base.frames.length with
    | none => exact Option.isNone_iff_eq_none.2 hexit
    | some x =>
      cases hends V hV x hexit with
      | value hitem => cases hVitem.symm.trans hitem
      | interrupted _ hnone =>
        rcases hnone with hnone | hundone
        · cases hVl.symm.trans hnone
        · cases hVopen.symm.trans hundone
  latched W hW := h.latched W (List.mem_filter.1 hW).1
  balanced := h.balanced.leave a

end Kept

end Stock

end FiberLoop
