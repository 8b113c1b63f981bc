import YakUnshorn.EventTypes
import YakUnshorn.PopById

/-!
`oxi_subscribe_events`, `pop_by_id` and `oxi_unsubscribe` of `ox-kernel/event.c`,
and what the scan for an id does on topics whose chains end.
-/

namespace YakUnshorn

open CMachine LinkedChain

abbrev SubStore := SubSlot → OxSubscription

def links (items : SubStore) : SubSlot → Option SubSlot := fun slot => (items slot).next

def setNext (items : SubStore) (slot : SubSlot) (link : Option SubSlot) : SubStore :=
  Function.update items slot { items slot with next := link }

/-- `oxi_subscribe_events`, where `rand` gives `id`. -/
def oxiSubscribeEvents (system : OxEventSystem) (id : Int) (type : Fin topicsCount)
    (callback userData : Pointer) : OxEventSystem × Int :=
  if 0 ≤ system.subscriptionSet.avail then
    let sub : OxSubscription := ⟨id, callback, userData, system.topics type⟩
    let (set, subbed) := system.subscriptionSet.add oxSubEq sub
    ({ topics := Function.update system.topics type subbed, subscriptionSet := set }, id)
  else (system, 0)

/-- The loop of `pop_by_id`. The fuel bounds the number of nodes visited: a walk over a store
of `subMax` nodes that visits more of them has met one twice and goes on forever. -/
def popByIdLoop (id : Nat) :
    Nat → SubStore → Option SubSlot → Option SubSlot → Except Fault (Option SubSlot × SubStore)
  | _, items, _, none => .ok (none, items)
  | 0, _, _, some _ => .error .nonTermination
  | fuel + 1, items, prev, some sub =>
      if toSizeT (items sub).id = id then
        match prev with
        | none => .error .nullDereference
        | some prev =>
            let items := setNext items prev none
            match (items sub).next with
            | none => .ok (some sub, items)
            | some following => .ok (some sub, setNext items prev (items following).next)
      else popByIdLoop id fuel items (some sub) (items sub).next

def popById (items : SubStore) (subList : Option SubSlot) (id : Nat) :
    Except Fault (Option SubSlot × SubStore) :=
  popByIdLoop id subMax items none subList

def scanTopics (topics : Fin topicsCount → Option SubSlot) (id : Nat) :
    List (Fin topicsCount) → SubStore → Except Fault (Option SubSlot × SubStore)
  | [], items => .ok (none, items)
  | topic :: rest, items =>
      match popById items (topics topic) id with
      | .error fault => .error fault
      | .ok (some sub, items) => .ok (some sub, items)
      | .ok (none, items) => scanTopics topics id rest items

def oxiUnsubscribe (system : OxEventSystem) (id : Nat) : Except Fault (OxEventSystem × Bool) :=
  match scanTopics system.topics id (List.finRange topicsCount) system.subscriptionSet.items with
  | .error fault => .error fault
  | .ok (none, items) =>
      .ok ({ system with subscriptionSet := { system.subscriptionSet with items } }, false)
  | .ok (some sub, items) =>
      let set : FixedSet OxSubscription subMax := { system.subscriptionSet with items }
      let (set, removed) := set.remove oxSubEq (items sub)
      .ok ({ system with subscriptionSet := set }, removed)

def randMax : Int := 2 ^ 31 - 1

theorem toSizeT_injective {first second : Int} (firstLower : 0 ≤ first)
    (firstUpper : first ≤ randMax) (secondLower : 0 ≤ second) (secondUpper : second ≤ randMax)
    (same : toSizeT first = toSizeT second) : first = second := by
  unfold randMax at firstUpper secondUpper
  exact toSizeT_inj (by omega) (by omega) (by omega) (by omega) same

@[simp] theorem links_setNext (items : SubStore) (slot : SubSlot) (link : Option SubSlot) :
    links (setNext items slot link) = Function.update (links items) slot link := by
  funext query
  simp only [links, setNext, Function.update_apply]
  split <;> rfl

theorem setNext_of_ne (items : SubStore) {slot query : SubSlot} (link : Option SubSlot)
    (other : query ≠ slot) : setNext items slot link query = items query :=
  Function.update_of_ne other _ _

theorem setNext_id (items : SubStore) (slot query : SubSlot) (link : Option SubSlot) :
    (setNext items slot link query).id = (items query).id := by
  simp only [setNext, Function.update_apply]
  split
  case isTrue same => rw [same]
  case isFalse => rfl

def relinked (items : SubStore) (next : SubSlot → Option SubSlot) : SubStore :=
  fun slot => { items slot with next := next slot }

theorem relinked_update (items store : SubStore) (slot : SubSlot) (link : Option SubSlot)
    (alike : relinked items (links store) = store) :
    relinked items (Function.update (links store) slot link) = setNext store slot link := by
  funext query
  rw [← alike]
  simp only [relinked, setNext, Function.update_apply]
  split
  case isTrue same => rw [same]
  case isFalse => rfl

theorem popByIdLoop_eq (id fuel : Nat) (items : SubStore) (prev start : Option SubSlot) :
    popByIdLoop id fuel items prev start =
      (popByIdFrom (fun slot => (items slot).id) id fuel (links items) prev start).map
        fun (sub, next) => (sub, relinked items next) := by
  induction fuel generalizing prev start with
  | zero => cases start <;> rfl
  | succ fuel ih =>
      cases start with
      | none => rfl
      | some sub =>
          simp only [popByIdLoop, popByIdFrom]
          split
          case isTrue =>
            cases prev with
            | none => rfl
            | some prev =>
                have alike : relinked items (links (setNext items prev none)) =
                    setNext items prev none := by
                  rw [links_setNext, relinked_update items items prev none rfl]
                have read : links (setNext items prev none) sub =
                    (setNext items prev none sub).next := rfl
                dsimp only
                rw [← links_setNext, read]
                cases (setNext items prev none sub).next with
                | none => simp only [Except.map, alike]
                | some following =>
                    simp only [Except.map, relinked_update items _ prev _ alike]
                    rfl
          case isFalse => exact ih (some sub) (items sub).next

section Chains

variable {id : Nat} {items : SubStore} {start : Option SubSlot}

theorem popById_absent {nodes : List SubSlot} (chain : Chain (links items) start nodes)
    (unmatched : ∀ slot ∈ nodes, toSizeT (items slot).id ≠ id) :
    popById items start id = .ok (none, items) := by
  have short : nodes.length ≤ subMax := by simpa using chain.length_le
  rw [popById, popByIdLoop_eq, popByIdFrom_absent chain unmatched short]
  rfl

theorem popById_head {sub : SubSlot} {back : List SubSlot}
    (chain : Chain (links items) start (sub :: back)) (matched : toSizeT (items sub).id = id) :
    popById items start id = .error .nullDereference := by
  rw [popById, popByIdLoop_eq]
  change Except.map _ (popByIdFrom _ id (1023 + 1) _ _ _) = _
  rw [popByIdFrom_head chain.1 matched]
  rfl

theorem popById_found {front back : List SubSlot} {prev sub : SubSlot}
    (chain : Chain (links items) start (front ++ prev :: sub :: back))
    (unmatched : ∀ slot ∈ front ++ [prev], toSizeT (items slot).id ≠ id)
    (matched : toSizeT (items sub).id = id) :
    popById items start id =
      .ok (some sub, setNext items prev (back.head?.bind (links items))) := by
  have short : (front ++ prev :: sub :: back).length ≤ subMax := by simpa using chain.length_le
  rw [popById, popByIdLoop_eq, popByIdFrom_found chain unmatched matched short]
  simp only [Except.map, relinked_update items items prev _ rfl]

end Chains

theorem scanTopics_skip {topics : Fin topicsCount → Option SubSlot} {id : Nat} {items : SubStore}
    (front back : List (Fin topicsCount))
    (absent : ∀ topic ∈ front, popById items (topics topic) id = .ok (none, items)) :
    scanTopics topics id (front ++ back) items = scanTopics topics id back items := by
  induction front with
  | nil => rfl
  | cons topic rest ih =>
      simp only [List.cons_append, scanTopics, absent topic (by simp)]
      exact ih fun later member => absent later (by simp [member])

theorem scanTopics_at {topics : Fin topicsCount → Option SubSlot} {id : Nat} {items : SubStore}
    (here : Fin topicsCount)
    (absent : ∀ topic, topic ≠ here → popById items (topics topic) id = .ok (none, items)) :
    ∃ rest, scanTopics topics id (List.finRange topicsCount) items =
      scanTopics topics id (here :: rest) items := by
  obtain ⟨front, rest, split, fresh⟩ := List.eq_append_cons_of_mem (List.mem_finRange here)
  refine ⟨rest, ?_⟩
  rw [split]
  apply scanTopics_skip
  intro topic member
  apply absent
  rintro rfl
  exact fresh member

end YakUnshorn
