import FiberLoop.Proofs.Permits.Books

/-!
# The order of a semaphore

What the operations on a semaphore do to its row, and what is booked for it, as a system of its own: a `Deal` is
one step, and `Dealt` are the rows and books that come about. The world plays no part here.

The line is what the books say (`Dealt.line`), so the order of grants can be read off the books: a permit goes to
the first in line, and nobody takes one at once while somebody waits (`Dealt.inTurn`).
-/

namespace FiberLoop

/-- In a list in which something does not occur twice, it belongs to one entry only. -/
theorem eq_of_nodup_filterMap {α β : Type} {k : α → Option β} {entries : List α} (h : (entries.filterMap k).Nodup)
    {a a' : α} {x : β} (ha : a ∈ entries) (ha' : a' ∈ entries) (hk : k a = some x) (hk' : k a' = some x) : a = a' := by
  induction entries with
  | nil => cases ha
  | cons first rest ih =>
    have hmore (a : α) (ha : a ∈ rest) (hk : k a = some x) : x ∈ rest.filterMap k :=
      List.mem_filterMap.2 ⟨a, ha, hk⟩
    rcases List.mem_cons.1 ha with rfl | hrest
    · rw [List.filterMap_cons, hk] at h
      rcases List.mem_cons.1 ha' with rfl | hrest'
      · rfl
      · exact absurd (hmore a' hrest' hk') (List.nodup_cons.1 h).1
    · rcases List.mem_cons.1 ha' with rfl | hrest'
      · rw [List.filterMap_cons, hk'] at h
        exact absurd (hmore a hrest hk) (List.nodup_cons.1 h).1
      · exact ih (h.sublist ((List.sublist_cons_self first rest).filterMap k)) hrest hrest'

namespace Semaphore

/-- The latches that have joined the line, in order. -/
def joined (es : List Booking) : List DeferredId := es.filterMap Booking.joins?

/-- The latches that have left the line. -/
def left (es : List Booking) : List DeferredId := es.filterMap Booking.leaves?

/-- One step of a semaphore: from its books and its row, with what is booked, to its new row. -/
inductive Deal (es : List Booking) : Semaphore → List Booking → Semaphore → Prop where
  | take {e : Booking} (h : e.isImmediate = true) (p : Nat) : Deal es ⟨p + 1, []⟩ [e] ⟨p, []⟩
  | join (f : FiberId) {l : DeferredId} (h : l ∉ joined es) (line : List DeferredId) :
    Deal es ⟨0, line⟩ [.queued f l] ⟨0, line ++ [l]⟩
  | free {e : Booking} (h : e.comesBack = true) (p : Nat) : Deal es ⟨p, []⟩ [e] ⟨(p + 1) % wordLimit, []⟩
  | pass {e : Booking} (h : e.comesBack = true) (p : Nat) (l : DeferredId) (rest : List DeferredId) :
    Deal es ⟨p, l :: rest⟩ [e, .delivered l] ⟨p, rest⟩
  | giveUp {f : FiberId} {l : DeferredId} {line : List DeferredId} (hqueued : .queued f l ∈ es) (h : l ∈ line) (p : Nat) :
    Deal es ⟨p, line⟩ [.abandoned f l] ⟨p, line.erase l⟩
  | keep (f : FiberId) (row : Semaphore) : Deal es row [.kept f] row

/-- What can have been booked for a semaphore that was made with some permits, and its row. -/
inductive Dealt (n : Nat) : List Booking → Semaphore → Prop where
  | made : Dealt n [] ⟨n, []⟩
  | deal {es new : List Booking} {row row' : Semaphore} (h : Dealt n es row) (hdeal : Deal es row new row') :
    Dealt n (es ++ new) row'

variable {n : Nat} {row row' : Semaphore} {es new pre post : List Booking} {e : Booking} {l l' : DeferredId}

/-- Nobody waits while a permit is free. -/
theorem Dealt.idle (h : Dealt n es row) : row.permits = 0 ∨ row.waiters = [] := by
  induction h with
  | made => exact Or.inr rfl
  | deal _ hdeal ih =>
    cases hdeal with
    | take | free => exact Or.inr rfl
    | join => exact Or.inl rfl
    | pass => exact Or.inl (ih.resolve_right (List.cons_ne_nil _ _))
    | giveUp _ hl => exact Or.inl (ih.resolve_right (List.ne_nil_of_mem hl))
    | keep => exact ih

/-! ## The line -/

@[simp] theorem joined_append (es new : List Booking) : joined (es ++ new) = joined es ++ joined new :=
  List.filterMap_append

@[simp] theorem left_append (es new : List Booking) : left (es ++ new) = left es ++ left new :=
  List.filterMap_append

/-- What says nothing about the line. -/
theorem line_of_immediate (h : e.isImmediate = true) : joined [e] = [] ∧ left [e] = [] := by
  cases e with
  | tried | granted => exact ⟨rfl, rfl⟩
  | _ => cases h

theorem line_of_comesBack (h : e.comesBack = true) (rest : List Booking) :
    joined (e :: rest) = joined rest ∧ left (e :: rest) = left rest := by
  cases e with
  | returned | undone => exact ⟨rfl, rfl⟩
  | _ => cases h

theorem not_grant_of_comesBack (h : e.comesBack = true) : e.isGrant = false := by
  cases e with
  | returned | undone => rfl
  | _ => cases h

/-- The line of a semaphore, as its books have it. -/
structure InLine (es : List Booking) (line : List DeferredId) : Prop where
  nodup : (joined es).Nodup
  left_nodup : (left es).Nodup
  left_subset : left es ⊆ joined es
  eq : line = (joined es).filter (· ∉ left es)

variable {places rest : List DeferredId}

theorem InLine.mem_iff (h : InLine es places) : l ∈ places ↔ l ∈ joined es ∧ l ∉ left es := by
  rw [h.eq, List.mem_filter, decide_eq_true_iff]

theorem InLine.line_nodup (h : InLine es places) : places.Nodup := h.eq ▸ h.nodup.filter _

/-- Booking what says nothing about the line. -/
theorem InLine.stay (h : InLine es places) (hjoined : joined new = []) (hleft : left new = []) :
    InLine (es ++ new) places := by
  have hj : joined (es ++ new) = joined es := by rw [joined_append, hjoined, List.append_nil]
  have hl : left (es ++ new) = left es := by rw [left_append, hleft, List.append_nil]
  exact ⟨hj ▸ h.nodup, hl ▸ h.left_nodup, hj ▸ hl ▸ h.left_subset, hj ▸ hl ▸ h.eq⟩

theorem nodup_concat {entries : List DeferredId} (h : entries.Nodup) (hl : l ∉ entries) : (entries ++ [l]).Nodup := by
  refine List.nodup_append.2 ⟨h, List.nodup_cons.2 ⟨List.not_mem_nil, List.nodup_nil⟩, ?_⟩
  rintro x hx y hy rfl
  exact hl (List.mem_singleton.1 hy ▸ hx)

theorem InLine.join (h : InLine es places) (hnew : l ∉ joined es) (hjoined : joined new = [l])
    (hleft : left new = []) : InLine (es ++ new) (places ++ [l]) := by
  have hj : joined (es ++ new) = joined es ++ [l] := by rw [joined_append, hjoined]
  have hl : left (es ++ new) = left es := by rw [left_append, hleft, List.append_nil]
  refine ⟨?_, hl ▸ h.left_nodup, ?_, ?_⟩
  · rw [hj]
    exact nodup_concat h.nodup hnew
  · rw [hj, hl]
    exact fun x hx => List.mem_append_left _ (h.left_subset hx)
  · have hstays : l ∉ left es := fun hmem => hnew (h.left_subset hmem)
    rw [hj, hl, List.filter_append, ← h.eq, List.filter_cons_of_pos (by simpa using hstays), List.filter_nil]

theorem InLine.leave (h : InLine es places) (hl : l ∈ places) (hjoined : joined new = []) (hleft : left new = [l]) :
    InLine (es ++ new) (places.erase l) := by
  have hj : joined (es ++ new) = joined es := by rw [joined_append, hjoined, List.append_nil]
  have hmore : left (es ++ new) = left es ++ [l] := by rw [left_append, hleft]
  refine ⟨hj ▸ h.nodup, hmore ▸ nodup_concat h.left_nodup (h.mem_iff.1 hl).2, ?_, ?_⟩
  · rw [hj, hmore]
    exact List.append_subset.2 ⟨h.left_subset, List.cons_subset.2 ⟨(h.mem_iff.1 hl).1, List.nil_subset _⟩⟩
  · rw [hj, hmore, h.line_nodup.erase_eq_filter, h.eq, List.filter_filter]
    refine List.filter_congr fun x _ => ?_
    by_cases hx : x = l <;> simp [hx]

/-- Whoever has joined the line is in it or has left it. -/
theorem InLine.length_eq (h : InLine es places) : (joined es).length = places.length + (left es).length := by
  have hgone : ((joined es).filter (· ∈ left es)).Perm (left es) := by
    refine (List.perm_ext_iff_of_nodup (h.nodup.filter _) h.left_nodup).2 fun x => ?_
    rw [List.mem_filter, decide_eq_true_iff]
    exact ⟨And.right, fun hx => ⟨h.left_subset hx, hx⟩⟩
  have hsplit : (joined es).length = places.length + ((joined es).filter (· ∈ left es)).length := by
    rw [List.length_eq_countP_add_countP (fun x => decide (x ∉ left es)), List.countP_eq_length_filter,
      List.countP_eq_length_filter, ← h.eq]
    simp
  rw [hsplit, hgone.length_eq]

/-- **The line is what the books say.** -/
theorem Dealt.line (h : Dealt n es row) : InLine es row.waiters := by
  induction h with
  | made => exact ⟨List.nodup_nil, List.nodup_nil, List.Subset.refl _, rfl⟩
  | deal _ hdeal ih =>
    cases hdeal with
    | take htake p => exact ih.stay (line_of_immediate htake).1 (line_of_immediate htake).2
    | join f hnew line => exact ih.join hnew rfl rfl
    | free hback p => exact ih.stay (line_of_comesBack hback []).1 (line_of_comesBack hback []).2
    | pass hback p l rest =>
      have hhead : InLine (_ ++ [_, .delivered l]) ((l :: rest).erase l) :=
        ih.leave List.mem_cons_self (line_of_comesBack hback _).1 (line_of_comesBack hback _).2
      rwa [List.erase_cons_head] at hhead
    | giveUp _ hl p => exact ih.leave hl rfl rfl
    | keep f row => exact ih.stay rfl rfl

/-- Who does not leave the line stays in it. -/
theorem Deal.stays (hdeal : Deal es row new row') (hl : l ∈ row.waiters) (hstays : l ∉ left new) : l ∈ row'.waiters := by
  cases hdeal with
  | take | free => cases hl
  | join f hnew line => exact List.mem_append_left _ hl
  | pass hback p head rest =>
    rw [(line_of_comesBack hback _).2] at hstays
    exact (List.mem_cons.1 hl).resolve_left fun he => hstays (he ▸ List.mem_cons_self)
  | giveUp _ hgone p =>
    refine (List.mem_erase_of_ne ?_).2 hl
    rintro rfl
    exact hstays List.mem_cons_self
  | keep => exact hl

/-! ## The order of grants -/

/-- Whoever takes a permit at once finds the line empty, and a latch is completed when all that have joined the line
before it have left it. -/
def InTurn (es : List Booking) : Prop :=
  ∀ pre e post, es = pre ++ e :: post →
    (e.isImmediate = true → joined pre ⊆ left pre) ∧
      ∀ l, e = .delivered l → ∀ l', [l', l].Sublist (joined pre) → l' ∈ left pre

theorem split_singleton {a : Booking} (h : [a] = pre ++ e :: post) : pre = [] ∧ e = a := by
  cases pre with
  | nil => exact ⟨rfl, (List.cons.inj h).1.symm⟩
  | cons x pre => exact absurd (List.cons.inj h).2 (List.append_ne_nil_of_right_ne_nil _ (List.cons_ne_nil _ _)).symm

/-- An entry among more entries is among the old ones or among the new ones. -/
theorem split_append (h : es ++ new = pre ++ e :: post) :
    (∃ post', es = pre ++ e :: post') ∨ ∃ pre', pre = es ++ pre' ∧ new = pre' ++ e :: post := by
  rcases List.append_eq_append_iff.1 h with ⟨pre', hpre, hnew⟩ | ⟨post', hes, hpost⟩
  · exact Or.inr ⟨pre', hpre, hnew⟩
  · cases post' with
    | nil => exact Or.inr ⟨[], by rw [List.append_nil] at hes ⊢; exact hes.symm, hpost.symm⟩
    | cons x post' =>
      obtain ⟨rfl, -⟩ := List.cons.inj hpost
      exact Or.inl ⟨post', hes⟩

theorem InTurn.append (h : InTurn es)
    (hnew : ∀ pre e post, new = pre ++ e :: post →
      (e.isImmediate = true → joined (es ++ pre) ⊆ left (es ++ pre)) ∧
        ∀ l, e = .delivered l → ∀ l', [l', l].Sublist (joined (es ++ pre)) → l' ∈ left (es ++ pre)) :
    InTurn (es ++ new) := by
  intro pre e post hsplit
  rcases split_append hsplit with ⟨post', hes⟩ | ⟨pre', rfl, hmore⟩
  · exact h pre e post' hes
  · exact hnew pre' e post hmore

/-- One new entry that grants nothing. -/
theorem InTurn.stay (h : InTurn es) (he : e.isGrant = false) : InTurn (es ++ [e]) := by
  refine h.append fun pre e' post hsplit => ?_
  obtain ⟨rfl, rfl⟩ := split_singleton hsplit
  refine ⟨fun himmediate => ?_, fun l hl => ?_⟩
  · cases e' with
    | tried | granted => cases he
    | _ => cases himmediate
  · rw [hl] at he
    cases he

/-- The head of a line without duplicates has nobody before it. -/
theorem InLine.left_of_before (h : InLine es (l :: rest)) (hbefore : [l', l].Sublist (joined es)) : l' ∈ left es := by
  refine Classical.byContradiction fun hstays => ?_
  have hhead := (h.mem_iff.1 List.mem_cons_self).2
  have hfiltered : [l', l].Sublist (l :: rest) := by
    have hsub := hbefore.filter (· ∉ left es)
    rwa [← h.eq, List.filter_cons_of_pos (by simpa using hstays), List.filter_cons_of_pos (by simpa using hhead),
      List.filter_nil] at hsub
  have hnodup := h.line_nodup
  cases hfiltered with
  | cons _ hrest => exact (List.nodup_cons.1 hnodup).1 (hrest.subset (List.mem_cons_of_mem _ List.mem_cons_self))
  | cons_cons _ hrest => exact (List.nodup_cons.1 hnodup).1 (hrest.subset List.mem_cons_self)

/-- **Permits are granted in the order of request.** -/
theorem Dealt.inTurn (h : Dealt n es row) : InTurn es := by
  induction h with
  | made => exact fun pre e post hsplit => absurd hsplit (List.append_ne_nil_of_right_ne_nil _ (List.cons_ne_nil _ _)).symm
  | deal hdealt hdeal ih =>
    have hline := hdealt.line
    cases hdeal with
    | take htake p =>
      refine ih.append fun pre e' post hsplit => ?_
      obtain ⟨rfl, rfl⟩ := split_singleton hsplit
      rw [List.append_nil]
      refine ⟨fun _ x hx => ?_, ?_⟩
      · exact Classical.byContradiction fun hstays => List.not_mem_nil (hline.mem_iff.2 ⟨hx, hstays⟩)
      · rintro l rfl
        cases htake
    | join f hnew line => exact ih.stay rfl
    | free hback p => exact ih.stay (not_grant_of_comesBack hback)
    | pass hback p l rest =>
      rw [List.append_cons]
      refine (ih.stay (not_grant_of_comesBack hback)).append fun pre e' post hsplit => ?_
      obtain ⟨rfl, rfl⟩ := split_singleton hsplit
      refine ⟨fun himmediate => (Bool.false_ne_true himmediate).elim, fun l hl l' hbefore => ?_⟩
      cases hl
      have hback' := line_of_comesBack hback []
      have hstay : InLine (_ ++ [_]) (l :: rest) := hline.stay hback'.1 hback'.2
      rw [List.append_nil] at hbefore ⊢
      exact hstay.left_of_before hbefore
    | giveUp _ hl p => exact ih.stay rfl
    | keep f row => exact ih.stay rfl

/-- What joins the line is new to it. -/
theorem Deal.joined_new (h : Deal es row new row') : joined new = [] ∨ ∃ l, joined new = [l] ∧ l ∉ joined es := by
  cases h with
  | take htake => exact Or.inl (line_of_immediate htake).1
  | join f hnew => exact Or.inr ⟨_, rfl, hnew⟩
  | free hback => exact Or.inl (line_of_comesBack hback []).1
  | pass hback => exact Or.inl (line_of_comesBack hback _).1
  | giveUp | keep => exact Or.inl rfl

/-- A permit goes to the first in line. -/
theorem Deal.of_delivered (h : Deal es row new row') (hl : .delivered l ∈ new) :
    ∃ rest, row.waiters = l :: rest ∧ joined new = [] := by
  cases h with
  | take htake =>
    cases List.mem_singleton.1 hl
    cases htake
  | free hback =>
    cases List.mem_singleton.1 hl
    cases hback
  | pass hback p head rest =>
    rcases List.mem_cons.1 hl with rfl | hl
    · cases hback
    · cases List.mem_singleton.1 hl
      exact ⟨rest, rfl, (line_of_comesBack hback _).1⟩
  | join | giveUp | keep => cases List.mem_singleton.1 hl

theorem sublist_of_concat {entries : List DeferredId} {x : DeferredId} (h : [l', l].Sublist (entries ++ [x])) (hx : l ≠ x) :
    [l', l].Sublist entries := by
  obtain ⟨first, last, hsplit, hfirst, hlast⟩ := List.sublist_append_iff.1 h
  cases hlast with
  | cons _ hnil =>
    cases hnil
    rwa [hsplit, List.append_nil]
  | cons_cons _ hnil =>
    cases hnil
    have hend : some l = some x := by simpa using congrArg List.getLast? hsplit
    exact absurd (Option.some.inj hend) hx

/-- **Once the permit of a latch has come, those that have joined the line before it have left it.** -/
theorem Dealt.left_before (h : Dealt n es row) (hbefore : [l', l].Sublist (joined es)) (hl : .delivered l ∈ es) :
    l' ∈ left es := by
  induction h with
  | made => cases hl
  | deal hdealt hdeal ih =>
    rw [joined_append] at hbefore
    rw [left_append]
    refine List.mem_append_left _ ?_
    rcases List.mem_append.1 hl with hold | hnew
    · have hjoined := hdealt.line.left_subset (List.mem_filterMap.2 ⟨_, hold, rfl⟩)
      rcases hdeal.joined_new with hnone | ⟨x, hone, hx⟩
      · rw [hnone, List.append_nil] at hbefore
        exact ih hbefore hold
      · rw [hone] at hbefore
        exact ih (sublist_of_concat hbefore fun he => hx (he ▸ hjoined)) hold
    · obtain ⟨rest, hline, hnone⟩ := hdeal.of_delivered hnew
      rw [hnone, List.append_nil] at hbefore
      exact (hline ▸ hdealt.line).left_of_before hbefore

theorem Deal.left_before (hdeal : Deal es row new row') (hdealt : Dealt n es row) (hbefore : [l', l].Sublist (joined es))
    (hl : .delivered l ∈ es ++ new) : l' ∈ left es := by
  rcases List.mem_append.1 hl with hold | hnew
  · exact hdealt.left_before hbefore hold
  · obtain ⟨rest, hline, -⟩ := hdeal.of_delivered hnew
    exact (hline ▸ hdealt.line).left_of_before hbefore

/-- Whoever gives up a place in line has joined it. -/
theorem Dealt.queued_of_abandoned (h : Dealt n es row) {f : FiberId} (hl : .abandoned f l ∈ es) : .queued f l ∈ es := by
  induction h with
  | made => cases hl
  | deal _ hdeal ih =>
    rcases List.mem_append.1 hl with hold | hnew
    · exact List.mem_append_left _ (ih hold)
    · cases hdeal with
      | take htake =>
        cases List.mem_singleton.1 hnew
        cases htake
      | free hback =>
        cases List.mem_singleton.1 hnew
        cases hback
      | pass hback p head rest =>
        rcases List.mem_cons.1 hnew with rfl | hnew
        · cases hback
        · cases List.mem_singleton.1 hnew
      | giveUp hqueued =>
        cases List.mem_singleton.1 hnew
        exact List.mem_append_left _ hqueued
      | join | keep => cases List.mem_singleton.1 hnew

/-- Whoever has left the line was granted a permit or has given up. -/
theorem Dealt.granted_of_left (h : Dealt n es row) {f : FiberId} (hpre : pre ⊆ es) (hqueued : .queued f l ∈ es)
    (hl : l ∈ left pre) : .delivered l ∈ pre ∨ .abandoned f l ∈ pre := by
  obtain ⟨e, he, hleaves⟩ := List.mem_filterMap.1 hl
  cases e with
  | delivered l' =>
    cases hleaves
    exact Or.inl he
  | abandoned g l' =>
    cases hleaves
    cases eq_of_nodup_filterMap h.line.nodup hqueued (h.queued_of_abandoned (hpre he)) rfl rfl
    exact Or.inr he
  | _ => cases hleaves

/-- **Of two tickets the earlier one is granted first, unless it is given up.** -/
theorem Dealt.granted_before (h : Dealt n es row) {a t : Booking} (hes : es = pre ++ t.grant :: post)
    (hbefore : [a, t].Sublist (pre ++ [t.grant])) (ha : a.isTicket = true) (ht : t.isTicket = true) :
    a.grant ∈ pre ∨ ∃ f l, a = .queued f l ∧ .abandoned f l ∈ pre := by
  obtain ⟨first, last, hsplit, hfirst, hlast⟩ := List.sublist_append_iff.1 hbefore
  have hpre : pre ⊆ es := hes ▸ List.subset_append_left _ _
  have hturn := h.inTurn pre t.grant post hes
  have hmem : a ∈ pre := by
    cases first with
    | nil =>
      rw [← show [a, t] = last from hsplit] at hlast
      exact absurd hlast.length_le (Nat.not_succ_le_self 1)
    | cons x first => exact hfirst.subset ((List.cons.inj hsplit).1 ▸ List.mem_cons_self)
  cases a with
  | granted f => exact Or.inl hmem
  | queued f l =>
    have hleft : l ∈ left pre := by
      cases t with
      | granted g => exact hturn.1 rfl (List.mem_filterMap.2 ⟨_, hmem, rfl⟩)
      | queued g l' =>
        refine hturn.2 l' rfl l ?_
        have hjoined := hbefore.filterMap Booking.joins?
        rwa [List.filterMap_append, show [Booking.grant (.queued g l')].filterMap Booking.joins? = [] from rfl,
          List.append_nil] at hjoined
      | _ => cases ht
    exact (h.granted_of_left hpre (hpre hmem) hleft).imp id fun hgone => ⟨f, l, rfl, hgone⟩
  | _ => cases ha

/-! ## The count of permits -/

/-- A ticket is granted, or joins the line; a permit that is granted is held or comes back. -/
theorem countP_grants (es : List Booking) :
    es.countP Booking.isUndone + es.countP Booking.isTicket + (left es).length + es.countP Booking.isTaken =
      es.countP Booking.isSettled + (joined es).length + es.countP Booking.isGrant := by
  induction es with
  | nil => rfl
  | cons e rest ih =>
    unfold joined left at ih ⊢
    cases e with
    | _ =>
      simp only [List.filterMap_cons, List.countP_cons, Booking.joins?, Booking.leaves?, Booking.isUndone,
        Booking.isTicket, Booking.isTaken, Booking.isSettled, Booking.isGrant, List.length_cons, if_true,
        Bool.false_eq_true, if_false]
      omega

/-- The count of a semaphore that was made with some permits. -/
def Balanced (n : Nat) (es : List Booking) (row : Semaphore) : Prop :=
  row.permits + es.countP Booking.isGrant = n + es.countP Booking.comesBack

theorem counts_of_immediate (h : e.isImmediate = true) :
    [e].countP Booking.isGrant = 1 ∧ [e].countP Booking.comesBack = 0 := by
  cases e with
  | tried | granted => exact ⟨rfl, rfl⟩
  | _ => cases h

theorem counts_of_comesBack (h : e.comesBack = true) (rest : List Booking) :
    (e :: rest).countP Booking.isGrant = rest.countP Booking.isGrant ∧
      (e :: rest).countP Booking.comesBack = rest.countP Booking.comesBack + 1 :=
  ⟨List.countP_cons_of_neg (by simp [not_grant_of_comesBack h]), List.countP_cons_of_pos h⟩

/-- The count stays right while it fits into a machine number. -/
theorem Deal.balanced (hdeal : Deal es row new row') (h : Balanced n es row)
    (hbound : n + (es ++ new).countP Booking.comesBack < wordLimit + (es ++ new).countP Booking.isGrant) :
    Balanced n (es ++ new) row' := by
  unfold Balanced at h ⊢
  rw [List.countP_append, List.countP_append] at hbound ⊢
  cases hdeal with
  | take htake p =>
    have hcounts := counts_of_immediate htake
    dsimp only at h ⊢
    omega
  | free hback p =>
    obtain ⟨hgrants, hbacks⟩ := counts_of_comesBack hback []
    rw [hgrants, hbacks, List.countP_nil, List.countP_nil] at hbound ⊢
    have hfits : (p + 1) % wordLimit = p + 1 := Nat.mod_eq_of_lt (by dsimp only at h; omega)
    dsimp only at h ⊢
    omega
  | pass hback p l rest =>
    obtain ⟨hgrants, hbacks⟩ := counts_of_comesBack hback [.delivered l]
    have hgrant : [Booking.delivered l].countP Booking.isGrant = 1 := rfl
    have hback' : [Booking.delivered l].countP Booking.comesBack = 0 := rfl
    dsimp only at h ⊢
    omega
  | _ => exact h

end Semaphore

end FiberLoop
