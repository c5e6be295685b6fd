import Dumbo.Fiber.FiberSpecific
import Mathlib.Data.List.Nodup
import Mathlib.Data.List.Perm.Basic

/-!
# When fiber-specific storage keeps its law

A new value is inserted under the address of a pointer object, where an element that is there already is
not replaced.
-/

namespace Dumbo.Fiber.FiberSpecific

open Transition
open Std (TreeMap)
open scoped List

variable {V Fn : Type}

/-! ### What the law promises -/

/-- Each address holds one value and no value is at two places: under an address, cleaned up or
released. -/
structure Law.WellFormed (l : Law V Fn) : Prop where
  keys : (l.held.map Held.key).Nodup
  values : (l.held.map Held.value).Nodup
  once : (l.due.map Prod.snd).Nodup
  gone : ∀ h ∈ l.held, h.value ∉ l.due.map Prod.snd
  accounted : l.stores.Perm (l.due.map Prod.snd ++ l.released ++ l.held.map Held.value)

namespace Law.WellFormed

variable {l : Law V Fn} {k : Nat}

theorem mem_others {h : Held V Fn} : h ∈ l.others k ↔ h ∈ l.held ∧ h.key ≠ k := by
  rw [Law.others, List.mem_filter, decide_eq_true_eq]

theorem mem_under {h : Held V Fn} : h ∈ l.under k ↔ h ∈ l.held ∧ h.key = k := by
  rw [Law.under, List.mem_filter, decide_eq_true_eq]

theorem held_perm (l : Law V Fn) (k : Nat) : l.held.Perm (l.under k ++ l.others k) := by
  have hperm := List.filter_append_perm (fun h : Held V Fn => decide (h.key = k)) l.held
  have hothers : l.others k = l.held.filter fun h => !decide (h.key = k) := by
    rw [Law.others]
    congr 1
    funext h
    simp
  rw [hothers]
  exact hperm.symm

theorem filter_key {held : List (Held V Fn)} (hkeys : (held.map Held.key).Nodup) {e : Held V Fn}
    (he : e ∈ held) : held.filter (fun h => decide (h.key = e.key)) = [e] := by
  induction held with
  | nil => exact absurd he List.not_mem_nil
  | cons x xs ih =>
    rw [List.map_cons, List.nodup_cons] at hkeys
    rcases List.mem_cons.mp he with rfl | he
    · have hrest : xs.filter (fun h => decide (h.key = e.key)) = [] := by
        rw [List.filter_eq_nil_iff]
        intro y hy hkey
        rw [decide_eq_true_eq] at hkey
        exact hkeys.1 (hkey ▸ List.mem_map_of_mem hy)
      rw [List.filter_cons_of_pos (by simp), hrest]
    · have hne : x.key ≠ e.key := fun hkey => hkeys.1 (hkey ▸ List.mem_map_of_mem he)
      rw [List.filter_cons_of_neg (by simpa using hne)]
      exact ih hkeys.2 he

theorem under_eq_singleton (h : l.WellFormed) {e : Held V Fn} (he : e ∈ l.held) :
    l.under e.key = [e] :=
  filter_key h.keys he

theorem under_eq_nil (hnone : ∀ h ∈ l.held, h.key ≠ k) : l.under k = [] := by
  rw [Law.under, List.filter_eq_nil_iff]
  intro h hh hkey
  exact hnone h hh (of_decide_eq_true hkey)

theorem others_eq_held (hnone : ∀ h ∈ l.held, h.key ≠ k) : l.others k = l.held := by
  rw [Law.others, List.filter_eq_self]
  intro h hh
  rw [decide_eq_true_eq]
  exact hnone h hh

theorem stored_eq_some (h : l.WellFormed) {v : V} :
    l.stored k = some v ↔ ∃ fn, (⟨k, fn, v⟩ : Held V Fn) ∈ l.held := by
  constructor
  · intro hv
    rw [Law.stored, Option.map_eq_some_iff] at hv
    obtain ⟨e, he, rfl⟩ := hv
    have hkey : e.key = k := by simpa using List.find?_some he
    exact ⟨e.function, hkey ▸ List.mem_of_find?_eq_some he⟩
  · rintro ⟨fn, he⟩
    have hunder := h.under_eq_singleton he
    rw [Law.stored, ← List.head?_filter]
    rw [Law.under] at hunder
    rw [hunder]
    rfl

theorem initial : (⟨[], [], [], []⟩ : Law V Fn).WellFormed :=
  ⟨List.nodup_nil, List.nodup_nil, List.nodup_nil, fun _ he => absurd he List.not_mem_nil, .nil⟩

theorem others_sublist (l : Law V Fn) (k : Nat) : (l.others k).Sublist l.held := List.filter_sublist

theorem values_perm (l : Law V Fn) (k : Nat) : (l.held.map Held.value).Perm
    ((l.under k).map Held.value ++ (l.others k).map Held.value) := by
  rw [← List.map_append]
  exact (held_perm l k).map Held.value

theorem cleanUp (h : l.WellFormed) (k : Nat) : (l.cleanUp k).WellFormed := by
  have hsub := others_sublist l k
  have hvalues := (values_perm l k).nodup_iff.mp h.values
  have hdue : (l.cleanUp k).due.map Prod.snd = l.due.map Prod.snd ++ (l.under k).map Held.value := by
    rw [Law.cleanUp, List.map_append, List.map_map]
    rfl
  refine ⟨h.keys.sublist (hsub.map _), h.values.sublist (hsub.map _), ?_, fun e he => ?_, ?_⟩
  · rw [hdue]
    refine h.once.append hvalues.of_append_left fun v hv hv' => ?_
    obtain ⟨e, he, rfl⟩ := List.mem_map.mp hv'
    exact h.gone e (mem_under.mp he).1 hv
  · rw [hdue, List.mem_append, not_or]
    refine ⟨h.gone e (mem_others.mp he).1, fun hv => ?_⟩
    exact List.disjoint_of_nodup_append hvalues hv (List.mem_map_of_mem he)
  · rw [hdue]
    calc
      l.stores ~ l.due.map Prod.snd ++ l.released ++ l.held.map Held.value := h.accounted
      _ ~ l.due.map Prod.snd ++ l.released ++
          ((l.under k).map Held.value ++ (l.others k).map Held.value) := (values_perm l k).append_left _
      _ ~ l.due.map Prod.snd ++ (l.under k).map Held.value ++ l.released ++
          (l.others k).map Held.value := by
        rw [← List.append_assoc, List.append_assoc (l.due.map Prod.snd)]
        apply List.Perm.append_right
        rw [List.append_assoc]
        exact List.perm_append_comm.append_left _

theorem release (h : l.WellFormed) (k : Nat) : (l.release k).WellFormed := by
  have hsub := others_sublist l k
  refine ⟨h.keys.sublist (hsub.map _), h.values.sublist (hsub.map _), h.once, fun e he => ?_, ?_⟩
  · exact h.gone e (mem_others.mp he).1
  · calc
      l.stores ~ l.due.map Prod.snd ++ l.released ++ l.held.map Held.value := h.accounted
      _ ~ l.due.map Prod.snd ++ l.released ++
          ((l.under k).map Held.value ++ (l.others k).map Held.value) := (values_perm l k).append_left _
      _ ~ l.due.map Prod.snd ++ (l.released ++ (l.under k).map Held.value) ++
          (l.others k).map Held.value := by
        rw [← List.append_assoc, List.append_assoc (l.due.map Prod.snd)]

theorem store (h : l.WellFormed) {fn : Fn} {v : V} (hkey : ∀ e ∈ l.held, e.key ≠ k)
    (hheld : v ∉ l.held.map Held.value) (hdue : v ∉ l.due.map Prod.snd) :
    (l.store k fn v).WellFormed := by
  refine ⟨?_, ?_, h.once, fun e he => ?_, ?_⟩
  · refine List.nodup_cons.mpr ⟨fun hm => ?_, h.keys⟩
    obtain ⟨e, he, hek⟩ := List.mem_map.mp hm
    exact hkey e he hek
  · exact List.nodup_cons.mpr ⟨hheld, h.values⟩
  · rcases List.mem_cons.mp he with rfl | he
    · exact hdue
    · exact h.gone e he
  · calc
      l.stores ++ [v] ~ l.due.map Prod.snd ++ l.released ++ l.held.map Held.value ++ [v] := h.accounted.append_right _
      _ ~ l.due.map Prod.snd ++ l.released ++ (v :: l.held.map Held.value) := by
        rw [List.append_assoc]
        exact (List.perm_append_singleton v _).append_left _

theorem terminate (h : l.WellFormed) : l.terminate.WellFormed := by
  have hdue : l.terminate.due.map Prod.snd = l.due.map Prod.snd ++ l.held.map Held.value := by
    rw [Law.terminate, List.map_append, List.map_map]
    rfl
  refine ⟨List.nodup_nil, List.nodup_nil, ?_, fun _ he => absurd he List.not_mem_nil, ?_⟩
  · rw [hdue]
    refine h.once.append h.values fun v hv hv' => ?_
    obtain ⟨e, he, rfl⟩ := List.mem_map.mp hv'
    exact h.gone e he hv
  · rw [hdue]
    calc
      l.stores ~ l.due.map Prod.snd ++ l.released ++ l.held.map Held.value := h.accounted
      _ ~ l.due.map Prod.snd ++ l.held.map Held.value ++ l.released ++ [] := by
        rw [List.append_nil, List.append_assoc, List.append_assoc]
        exact List.perm_append_comm.append_left _

end Law.WellFormed

/-! ### The data of a context -/

/-- The function and the value of a cleanup that is not one of a null pointer. -/
def Cleanup.value (c : Cleanup V Fn) : Option (Fn × V) := c.data.map fun v => (c.function, v)

/-- The map holds what the law does, and null pointers. -/
structure Holds (c : Context V Fn) (l : Law V Fn) : Prop where
  entries : ∀ h : Held V Fn, h ∈ l.held ↔ c.fssData[h.key]? = some ⟨some h.value, h.function⟩
  cleanups : c.cleanups.filterMap Cleanup.value ~ l.due

namespace Holds

variable {c : Context V Fn} {l : Law V Fn} {k : Nat} {fn : Fn}

theorem getFssData_eq (h : Holds c l) (hl : l.WellFormed) (k : Nat) :
    c.getFssData k = l.stored k := by
  apply Option.ext
  intro v
  rw [hl.stored_eq_some, Context.getFssData, Option.bind_eq_some_iff]
  constructor
  · rintro ⟨⟨vp, fn⟩, he, rfl⟩
    exact ⟨fn, (h.entries ⟨k, fn, v⟩).mpr he⟩
  · rintro ⟨fn, he⟩
    exact ⟨_, (h.entries ⟨k, fn, v⟩).mp he, rfl⟩

theorem key_ne (h : Holds c l) (hnone : c.fssData[k]? = none) : ∀ e ∈ l.held, e.key ≠ k := by
  rintro e he rfl
  have hsome := (h.entries e).mp he
  rw [hnone] at hsome
  cases hsome

/-- What is under an address is what its cleanup is called with. -/
theorem under_eq (h : Holds c l) (hl : l.WellFormed) (k : Nat) :
    (l.under k).map (fun h => (h.function, h.value)) =
      (c.fssData[k]?.map FssData.doCleanup).toList.filterMap Cleanup.value := by
  have hnil (hnull : ∀ v f, c.fssData[k]? ≠ some ⟨some v, f⟩) : l.under k = [] := by
    apply Law.WellFormed.under_eq_nil
    rintro e he rfl
    exact hnull _ _ ((h.entries e).mp he)
  cases he : c.fssData[k]? with
  | none =>
    rw [hnil (fun v f hs => by rw [he] at hs; cases hs)]
    rfl
  | some d =>
    obtain ⟨vp, f⟩ := d
    cases vp with
    | none =>
      rw [hnil (fun v f hs => by rw [he] at hs; cases hs)]
      rfl
    | some v =>
      have hunder := hl.under_eq_singleton ((h.entries ⟨k, f, v⟩).mpr he)
      rw [hunder]
      rfl

/-! #### Setting the data to null -/

theorem getElem?_insert {t : TreeMap Nat (FssData V Fn)} (hk : t[k]? = none) (d : FssData V Fn)
    (j : Nat) : (t.insertIfNew k d)[j]? = if k = j then some d else t[j]? := by
  have hmem : k ∉ t := by
    rw [TreeMap.mem_iff_isSome_getElem?, hk]
    exact Bool.false_ne_true
  rw [TreeMap.getElem?_insertIfNew]
  simp only [Nat.compare_eq_eq, hmem, not_false_eq_true, and_true]

theorem insert_eq {t : TreeMap Nat (FssData V Fn)} {e : FssData V Fn} (hk : t[k]? = some e)
    (d : FssData V Fn) (j : Nat) : (t.insertIfNew k d)[j]? = t[j]? := by
  have hmem : k ∈ t := by
    rw [TreeMap.mem_iff_isSome_getElem?, hk]
    rfl
  rw [TreeMap.getElem?_insertIfNew]
  simp only [hmem, not_true_eq_false, and_false, if_false]

theorem getElem?_erase (t : TreeMap Nat (FssData V Fn)) (j : Nat) :
    (t.erase k)[j]? = if k = j then none else t[j]? := by
  rw [TreeMap.getElem?_erase]
  simp only [Nat.compare_eq_eq]

theorem entries_none (h : Holds c l) (b : Bool) (e : Held V Fn) :
    e ∈ l.others k ↔
      (c.setFssData k fn none b).fssData[e.key]? = some ⟨some e.value, e.function⟩ := by
  rw [Law.WellFormed.mem_others, h.entries]
  cases hk : c.fssData[k]? with
  | none =>
    simp only [Context.setFssData, hk, getElem?_insert hk]
    by_cases he : k = e.key
    · simp [he]
    · simp [he, Ne.symm he]
  | some d =>
    simp only [Context.setFssData, hk, Option.isSome_none, Bool.false_eq_true, if_false, getElem?_erase]
    by_cases he : k = e.key
    · simp [he]
    · simp [he, Ne.symm he]

theorem cleanups_none (c : Context V Fn) (b : Bool) : (c.setFssData k fn none b).cleanups =
    c.cleanups ++ if b then (c.fssData[k]?.map FssData.doCleanup).toList else [] := by
  cases hk : c.fssData[k]? with
  | none => simp [Context.setFssData, hk]
  | some d => cases b <;> simp [Context.setFssData, hk]

theorem release (h : Holds c l) (k : Nat) : Holds (c.setFssData k fn none false) (l.release k) := by
  refine ⟨h.entries_none false, ?_⟩
  rw [cleanups_none, if_neg Bool.false_ne_true, List.append_nil]
  exact h.cleanups

theorem cleanUp (h : Holds c l) (hl : l.WellFormed) (k : Nat) :
    Holds (c.setFssData k fn none true) (l.cleanUp k) := by
  refine ⟨h.entries_none true, ?_⟩
  rw [cleanups_none, if_pos rfl, List.filterMap_append, Law.cleanUp, h.under_eq hl k]
  exact h.cleanups.append_right _

/-! #### Storing a value -/

theorem store (h : Holds c l) (hk : c.fssData[k]? = none) (v : V) (b : Bool) :
    Holds (c.setFssData k fn (some v) b) (l.store k fn v) := by
  constructor
  · intro e
    simp only [Context.setFssData, hk, getElem?_insert hk, Law.store, List.mem_cons, h.entries]
    obtain ⟨key, f, w⟩ := e
    by_cases he : k = key
    · subst he
      simp [hk, and_comm, eq_comm]
    · simp [he, Ne.symm he]
  · simp only [Context.setFssData, hk]
    exact h.cleanups

/-- The values of a map, with their keys. -/
def heldIn (t : TreeMap Nat (FssData V Fn)) : List (Held V Fn) :=
  t.toList.filterMap fun data => data.2.vp.map fun v => ⟨data.1, data.2.cleanupFunction, v⟩

theorem mem_heldIn {t : TreeMap Nat (FssData V Fn)} {e : Held V Fn} :
    e ∈ heldIn t ↔ t[e.key]? = some ⟨some e.value, e.function⟩ := by
  rw [heldIn, List.mem_filterMap, ← TreeMap.mem_toList_iff_getElem?_eq_some]
  constructor
  · rintro ⟨⟨key, vp, f⟩, hmem, he⟩
    obtain ⟨v, rfl, rfl⟩ := Option.map_eq_some_iff.mp he
    exact hmem
  · intro hmem
    exact ⟨_, hmem, rfl⟩

theorem nodup_heldIn (t : TreeMap Nat (FssData V Fn)) : (heldIn t).Nodup := by
  have hkeys : (t.toList.map Prod.fst).Nodup := by
    rw [List.Nodup, List.pairwise_map]
    refine t.distinct_keys_toList.imp fun hne he => hne ?_
    rw [Nat.compare_eq_eq]
    exact he
  refine List.Nodup.filterMap (fun a a' e he he' => ?_) hkeys.of_map
  obtain ⟨v, hv, rfl⟩ := Option.map_eq_some_iff.mp he
  obtain ⟨v', hv', heq⟩ := Option.map_eq_some_iff.mp he'
  obtain ⟨key, vp, f⟩ := a
  obtain ⟨key', vp', f'⟩ := a'
  obtain ⟨rfl, rfl, rfl⟩ := Held.mk.inj heq
  rw [show vp = vp' from hv.trans hv'.symm]

theorem terminate (h : Holds c l) (hl : l.WellFormed) : Holds c.setTerminated l.terminate := by
  constructor
  · intro e
    simp [Context.setTerminated, Law.terminate]
  · have hheld : heldIn c.fssData ~ l.held := by
      rw [List.perm_ext_iff_of_nodup (nodup_heldIn _) hl.keys.of_map]
      intro e
      rw [mem_heldIn, h.entries]
    have hcleanups : (c.fssData.toList.map fun data => data.2.doCleanup).filterMap Cleanup.value =
        (heldIn c.fssData).map fun h => (h.function, h.value) := by
      rw [heldIn, List.filterMap_map, List.map_filterMap]
      congr 1
      funext data
      simp only [Function.comp_apply, Cleanup.value, FssData.doCleanup, Option.map_map]
      rfl
    rw [Context.setTerminated, Law.terminate, List.filterMap_append, hcleanups]
    exact h.cleanups.append (hheld.map _)

end Holds

/-! ### Runs -/

variable [DecidableEq V]

/-- `get` returns what the law says is stored, and what has been cleaned up is what was due. -/
structure Lawful (s : State V Fn) : Prop where
  get : ∀ k, s.get k = s.law.stored k
  /-- with the functions of their keys, and without the null pointers -/
  cleanups : s.context.cleanups.filterMap Cleanup.value ~ s.law.due
  once : (s.law.due.map Prod.snd).Nodup
  gone : ∀ k v, s.get k = some v → v ∉ s.law.due.map Prod.snd
  accounted : s.law.stores ~ s.law.due.map Prod.snd ++ s.law.released ++ s.law.held.map Held.value
  finished : s.context.terminated = true → s.law.held = []

/-- A value is stored where the map has no element for the key, be it one of a null pointer. -/
def Free (s : State V Fn) (op : Op V Fn) : Prop :=
  ∀ k v, op = .reset k (some v) → s.get k ≠ some v → s.context.fssData[k]? = none

structure Inv (s : State V Fn) : Prop where
  holds : Holds s.context s.law
  law : s.law.WellFormed
  finished : s.context.terminated = true → s.law.held = []

variable {s t : State V Fn} {k : Nat} {fn : Fn} {op : Op V Fn}

omit [DecidableEq V] in
theorem Inv.lawful (h : Inv s) : Lawful s := by
  have hget := h.holds.getFssData_eq h.law
  refine ⟨hget, h.holds.cleanups, h.law.once, fun k v hv => ?_, h.law.accounted, h.finished⟩
  rw [State.get, hget, h.law.stored_eq_some] at hv
  obtain ⟨fn, he⟩ := hv
  exact h.law.gone _ he

omit [DecidableEq V] in
theorem setFssData_terminated (c : Context V Fn) (data : Option V) (b : Bool) :
    (c.setFssData k fn data b).terminated = c.terminated := by
  rw [Context.setFssData]
  split
  · dsimp only
    split_ifs <;> rfl
  · rfl

theorem reset_context {v : Option V} (hne : s.get k ≠ v) (fn : Fn) :
    (s.reset k fn v).context = s.context.setFssData k fn v true := if_pos hne

theorem Inv.reset (h : Inv s) (hrun : s.context.terminated = false) {v : Option V}
    (hlive : v.all (s.law.live k) = true) (hfree : Free s (.reset k v)) : Inv (s.reset k fn v) := by
  have hget : s.get k = s.law.stored k := h.holds.getFssData_eq h.law k
  have hterminated : (s.reset k fn v).context.terminated = false := by
    rw [State.reset]
    dsimp only
    split_ifs
    · rw [setFssData_terminated, hrun]
    · exact hrun
  have hfinished : (s.reset k fn v).context.terminated = true → (s.reset k fn v).law.held = [] := by
    rw [hterminated]
    exact fun hb => absurd hb Bool.false_ne_true
  by_cases he : s.get k = v
  · have hcontext : (s.reset k fn v).context = s.context := by
      simp only [State.reset, he, ne_eq, not_true_eq_false, if_false]
    have hlaw : (s.reset k fn v).law = s.law := by
      simp only [State.reset, Law.reset, ← hget, he, if_true]
    exact ⟨by rw [hcontext, hlaw]; exact h.holds, by rw [hlaw]; exact h.law, hfinished⟩
  · have hcontext := reset_context he fn
    cases v with
    | none =>
      have hlaw : (s.reset k fn none).law = s.law.cleanUp k := by
        simp only [State.reset, Law.reset, ← hget, he, if_false]
      refine ⟨?_, ?_, hfinished⟩
      · rw [hcontext, hlaw]
        exact h.holds.cleanUp h.law k
      · rw [hlaw]
        exact h.law.cleanUp k
    | some v =>
      have hnone := hfree k v rfl he
      have hkey := h.holds.key_ne hnone
      have hclean : s.law.cleanUp k = s.law := by
        rw [Law.cleanUp, Law.WellFormed.others_eq_held hkey, Law.WellFormed.under_eq_nil hkey,
          List.map_nil, List.append_nil]
      have hlaw : (s.reset k fn (some v)).law = s.law.store k fn v := by
        simp only [State.reset, Law.reset, ← hget, he, if_false, hclean]
      rw [Option.all_some, Law.live, decide_eq_true_eq, Law.WellFormed.others_eq_held hkey] at hlive
      refine ⟨?_, ?_, hfinished⟩
      · rw [hcontext, hlaw]
        exact h.holds.store hnone v true
      · rw [hlaw]
        exact h.law.store hkey hlive.2 hlive.1

theorem Inv.step (h : Inv s) (hfree : Free s op) (hs : step s op = some t) : Inv t := by
  simp only [FiberSpecific.step] at hs
  rw [Option.ite_none_left_eq_some] at hs
  obtain ⟨hterminated, hs⟩ := hs
  have hrun := Bool.eq_false_iff.mpr hterminated
  cases op with
  | construct address fn =>
    dsimp only at hs
    split at hs
    · rw [Option.some.injEq] at hs
      exact hs ▸ ⟨h.holds, h.law, h.finished⟩
    · cases hs
  | reset address v =>
    dsimp only at hs
    split at hs
    · rw [Option.ite_none_right_eq_some, Option.some.injEq] at hs
      exact hs.2 ▸ h.reset hrun hs.1 hfree
    · cases hs
  | release address =>
    obtain ⟨fn, -, rfl⟩ := Option.map_eq_some_iff.mp hs
    refine ⟨h.holds.release address, h.law.release address, fun hb => absurd hb ?_⟩
    rwa [State.release, setFssData_terminated]
  | destroy address =>
    obtain ⟨fn, -, rfl⟩ := Option.map_eq_some_iff.mp hs
    refine ⟨h.holds.cleanUp h.law address, h.law.cleanUp address, fun hb => absurd hb ?_⟩
    rwa [State.destroy, setFssData_terminated]
  | terminate =>
    rw [Option.some.injEq] at hs
    exact hs ▸ ⟨h.holds.terminate h.law, h.law.terminate, fun _ => rfl⟩

/-- A value that is not inserted is lost. -/
theorem Inv.broken (h : Inv s) (hnot : ¬ Free s op) (hs : FiberSpecific.step s op = some t) :
    ¬ Lawful t := by
  intro hlawful
  simp only [Free, not_forall] at hnot
  obtain ⟨k, v, rfl, hne, hsome⟩ := hnot
  obtain ⟨d, hd⟩ := Option.ne_none_iff_exists'.mp hsome
  simp only [FiberSpecific.step] at hs
  rw [Option.ite_none_left_eq_some] at hs
  obtain ⟨-, hs⟩ := hs
  split at hs
  · rename_i fn hfn
    rw [Option.ite_none_right_eq_some, Option.some.injEq] at hs
    obtain ⟨-, rfl⟩ := hs
    have hget : s.get k = s.law.stored k := h.holds.getFssData_eq h.law k
    have hstored : (s.reset k fn (some v)).law.stored k = some v := by
      simp only [State.reset, Law.reset, ← hget, hne, if_false]
      rw [Law.stored, Law.store, List.find?_cons_of_pos (by simp)]
      rfl
    have hkept : (s.reset k fn (some v)).get k = s.get k := by
      rw [State.get, reset_context hne, State.get, Context.getFssData, Context.getFssData]
      simp only [Context.setFssData, hd, Option.isSome_some, if_true]
      rw [Holds.insert_eq hd, hd]
    exact hne (hkept ▸ (hlawful.get k).trans hstored)
  · cases hs

/-- The law is kept throughout a run if and only if values are stored only under keys that have no
element. -/
theorem fiber_specific_storage {as : List (Op V Fn)} {t : State V Fn}
    (hrun : (machine V Fn).exec (machine V Fn).start as = some t) :
    (machine V Fn).Throughout Lawful (machine V Fn).start as ↔
      (machine V Fn).StepsMeet Free (machine V Fn).start as := by
  have hstart : Inv (machine V Fn).start := by
    refine ⟨⟨fun e => ?_, .nil⟩, Law.WellFormed.initial, fun _ => rfl⟩
    simp [machine]
  exact Machine.throughout_iff (fun _ h => h.lawful) (fun _ _ _ h hfree hs => h.step hfree hs)
    (fun _ _ _ h hnot hs => h.broken hnot hs) hstart hrun

/-- The value 5 is replaced by a null pointer, then 6 is stored and is there at the end of the fiber. -/
def replacedByNull : List (Op Nat Nat) :=
  [.construct 8 1, .reset 8 (some 5), .reset 8 none, .reset 8 (some 6), .terminate]

theorem fiber_specific_storage_null : ∃ t : State Nat Nat,
    (machine Nat Nat).exec (machine Nat Nat).start replacedByNull = some t ∧
    t.context.cleanups = [⟨1, some 5⟩, ⟨1, some 6⟩] ∧
    ((machine Nat Nat).Throughout Lawful (machine Nat Nat).start replacedByNull ↔
      (machine Nat Nat).StepsMeet Free (machine Nat Nat).start replacedByNull) := by
  obtain ⟨t, hrun, hcleanups⟩ : ∃ t : State Nat Nat,
      (machine Nat Nat).exec (machine Nat Nat).start replacedByNull = some t ∧
      t.context.cleanups = [⟨1, some 5⟩, ⟨1, some 6⟩] := ⟨_, rfl, rfl⟩
  exact ⟨t, hrun, hcleanups, fiber_specific_storage hrun⟩

/-- The value 5, once replaced by 6, is cleaned up and still there, and it is cleaned up again at the end
of the fiber; behind a `release` of nothing the value 5 is lost. -/
theorem fiber_specific_storage_replaced :
    (∃ t : State Nat Nat, (machine Nat Nat).exec (machine Nat Nat).start
        [.construct 8 1, .reset 8 (some 5), .reset 8 (some 6)] = some t ∧
      t.get 8 = some 5 ∧ t.context.cleanups = [⟨1, some 5⟩] ∧ ¬ Lawful t) ∧
    (∃ t : State Nat Nat, (machine Nat Nat).exec (machine Nat Nat).start
        [.construct 8 1, .reset 8 (some 5), .reset 8 (some 6), .terminate] = some t ∧
      t.context.cleanups = [⟨1, some 5⟩, ⟨1, some 5⟩]) ∧
    ∃ t : State Nat Nat, (machine Nat Nat).exec (machine Nat Nat).start
        [.construct 8 1, .release 8, .reset 8 (some 5)] = some t ∧
      t.get 8 = none ∧ ¬ Lawful t := by
  refine ⟨⟨_, rfl, rfl, rfl, fun h => ?_⟩, ⟨_, rfl, rfl⟩, ⟨_, rfl, rfl, fun h => ?_⟩⟩
  · exact absurd (h.get 8) (by decide)
  · exact absurd (h.get 8) (by decide)

end Dumbo.Fiber.FiberSpecific
