import YakUnshorn.Display
import YakUnshorn.Lib.Runs

/-!
Runs of registering and deregistering render callbacks against what they are for:
rendering calls every live callback.
-/

namespace YakUnshorn

open StepRuns

structure Renderer where
  number : Nat
  slot : RenderSlot
  f : Pointer
  userData : Pointer
  deriving Repr, DecidableEq

structure Renderers where
  live : List Renderer
  registrations : Nat
  deriving Repr, DecidableEq

namespace Renderers

def register (renderers : Renderers) (slot : RenderSlot) (f userData : Pointer) : Renderers where
  live := ⟨renderers.registrations + 1, slot, f, userData⟩ :: renderers.live
  registrations := renderers.registrations + 1

def deregister (renderers : Renderers) (slot : RenderSlot) : Renderers where
  live := renderers.live.filter fun renderer => renderer.slot ≠ slot
  registrations := renderers.registrations

def OnlyLatest (renderers : Renderers) : Prop :=
  ∀ renderer ∈ renderers.live, renderer.number = renderers.registrations

end Renderers

inductive DisplayOp
  | register (renderCb userData : Pointer)
  | deregister (cb : RenderSlot)
  deriving Repr, DecidableEq

abbrev DisplayState := OxDisplay × Renderers

def displayFresh (sdlRenderer : Pointer) : DisplayState := (oxiMakeDisplay sdlRenderer, ⟨[], 0⟩)

/-- One call. The slot that a registration fills is read off the display, since the call does
not return it. -/
def displayStep (state : DisplayState) : DisplayOp → Option DisplayState
  | .register renderCb userData =>
      some ((oxRegisterRenderCb state.1 renderCb userData).1,
        (availRenderCb state.1).elim state.2 fun cb => state.2.register cb renderCb userData)
  | .deregister cb => some (oxDeregisterRenderCb state.1 cb, state.2.deregister cb)

/-- Callbacks are not null and no more than there are slots, and only live slots are
deregistered. -/
def ProperCall (state : DisplayState) : DisplayOp → Prop
  | .register renderCb _ => renderCb ≠ 0 ∧ state.2.live.length < maxRenderCbs
  | .deregister cb => ∃ renderer ∈ state.2.live, renderer.slot = cb

instance (state : DisplayState) : (op : DisplayOp) → Decidable (ProperCall state op)
  | .register renderCb _ =>
      inferInstanceAs (Decidable (renderCb ≠ 0 ∧ state.2.live.length < maxRenderCbs))
  | .deregister cb =>
      inferInstanceAs (Decidable (∃ renderer ∈ state.2.live, renderer.slot = cb))

/-- Rendering calls every live callback once with its own user data and no other, and its result
tells whether one of them failed. -/
def RendersAll (result : Nat → Bool) (state : DisplayState) : Prop :=
  ∃ trace didError, oxiRenderAndPresent result state.1 = .ok (trace, didError) ∧
    (∃ order : List Renderer, order.Perm state.2.live ∧
      trace.map Prod.fst = order.map fun renderer =>
        ⟨renderer.f, state.1.sdlRenderer, renderer.userData⟩) ∧
    (didError = true ↔ ∃ call ∈ trace, call.2 = false)

/-- The store holds the live callbacks and no others, no slot has a next one, and the first slot
is that of the last registration, as long as it is live. -/
structure Tracks (display : OxDisplay) (renderers : Renderers) : Prop where
  unlinked : display.Unlinked
  stored : ∀ renderer ∈ renderers.live,
    display.callback renderer.slot = (renderer.f, renderer.userData) ∧ renderer.f ≠ 0
  live : ∀ slot, (display.callback slot).1 ≠ 0 → ∃ renderer ∈ renderers.live, renderer.slot = slot
  numbers : (renderers.live.map Renderer.number).Nodup
  numbered : ∀ renderer ∈ renderers.live, renderer.number ≤ renderers.registrations
  slots : (renderers.live.map Renderer.slot).Nodup
  latestFirst : ∀ renderer ∈ renderers.live, renderer.number = renderers.registrations →
    display.firstRenderCb = some renderer.slot
  firstLatest : ∀ slot, display.firstRenderCb = some slot →
    ∃ renderer ∈ renderers.live, renderer.number = renderers.registrations ∧ renderer.slot = slot

theorem tracks_fresh (sdlRenderer : Pointer) :
    Tracks (displayFresh sdlRenderer).1 (displayFresh sdlRenderer).2 where
  unlinked _ := rfl
  stored _ member := absurd member List.not_mem_nil
  live _ inUse := absurd rfl inUse
  numbers := List.nodup_nil
  numbered _ member := absurd member List.not_mem_nil
  slots := List.nodup_nil
  latestFirst _ member := absurd member List.not_mem_nil
  firstLatest _ first := by simp [displayFresh, oxiMakeDisplay] at first

namespace Tracks

variable {display : OxDisplay} {renderers : Renderers}

theorem room (tracks : Tracks display renderers)
    (few : renderers.live.length < maxRenderCbs) : ∃ cb, availRenderCb display = some cb := by
  cases found : availRenderCb display with
  | some cb => exact ⟨cb, rfl⟩
  | none =>
      exfalso
      have covered : List.finRange maxRenderCbs ⊆ renderers.live.map Renderer.slot := by
        intro slot _
        obtain ⟨renderer, member, same⟩ := tracks.live slot (availRenderCb_none found slot)
        exact List.mem_map.mpr ⟨renderer, member, same⟩
      have lengths := ((List.nodup_finRange maxRenderCbs).subperm covered).length_le
      rw [List.length_finRange, List.length_map] at lengths
      omega

theorem register (tracks : Tracks display renderers) {renderCb userData : Pointer}
    (callable : renderCb ≠ 0) {cb : RenderSlot} (found : availRenderCb display = some cb) :
    Tracks (oxRegisterRenderCb display renderCb userData).1
      (renderers.register cb renderCb userData) := by
  obtain ⟨unlinked, first, -, callback⟩ := oxRegisterRenderCb_spec tracks.unlinked
    userData callable found rfl
  have free := availRenderCb_some found
  have other (renderer : Renderer) (member : renderer ∈ renderers.live) : renderer.slot ≠ cb := by
    rintro rfl
    obtain ⟨stored, inUse⟩ := tracks.stored renderer member
    rw [stored] at free
    exact inUse free
  refine ⟨unlinked, ?_, ?_, ?_, ?_, ?_, ?_, ?_⟩
  · intro renderer member
    rw [callback]
    rcases List.mem_cons.mp member with rfl | old
    · exact ⟨Function.update_self _ _ _, callable⟩
    · rw [Function.update_of_ne (other renderer old)]
      exact tracks.stored renderer old
  · intro slot inUse
    rw [callback] at inUse
    by_cases here : slot = cb
    · exact ⟨_, List.mem_cons_self, here.symm⟩
    · rw [Function.update_of_ne here] at inUse
      obtain ⟨renderer, member, same⟩ := tracks.live slot inUse
      exact ⟨renderer, List.mem_cons_of_mem _ member, same⟩
  · refine List.nodup_cons.mpr ⟨fun again => ?_, tracks.numbers⟩
    obtain ⟨renderer, member, same⟩ := List.mem_map.mp again
    have := tracks.numbered renderer member
    simp only at same
    omega
  · intro renderer member
    rcases List.mem_cons.mp member with rfl | old
    · exact Nat.le_refl _
    · exact Nat.le_succ_of_le (tracks.numbered renderer old)
  · refine List.nodup_cons.mpr ⟨fun again => ?_, tracks.slots⟩
    obtain ⟨renderer, member, same⟩ := List.mem_map.mp again
    exact other renderer member same
  · intro renderer member latest
    rcases List.mem_cons.mp member with rfl | old
    · exact first
    · have := tracks.numbered renderer old
      simp only [Renderers.register] at latest
      omega
  · intro slot same
    rw [first] at same
    exact ⟨_, List.mem_cons_self, rfl, Option.some.inj same⟩

theorem deregister (tracks : Tracks display renderers) (cb : RenderSlot) :
    Tracks (oxDeregisterRenderCb display cb) (renderers.deregister cb) := by
  obtain ⟨unlinked, first, -, callback⟩ := oxDeregisterRenderCb_spec tracks.unlinked cb rfl
  have remaining (renderer : Renderer) (member : renderer ∈ (renderers.deregister cb).live) :
      renderer ∈ renderers.live ∧ renderer.slot ≠ cb := by
    simpa [Renderers.deregister] using member
  have stays (renderer : Renderer) (member : renderer ∈ renderers.live)
      (other : renderer.slot ≠ cb) : renderer ∈ (renderers.deregister cb).live := by
    simpa [Renderers.deregister] using ⟨member, other⟩
  refine ⟨unlinked, ?_, ?_, ?_, ?_, ?_, ?_, ?_⟩
  · intro renderer member
    obtain ⟨old, other⟩ := remaining renderer member
    rw [callback, Function.update_of_ne other]
    exact tracks.stored renderer old
  · intro slot inUse
    rw [callback] at inUse
    by_cases here : slot = cb
    · subst here
      simp at inUse
    · rw [Function.update_of_ne here] at inUse
      obtain ⟨renderer, member, rfl⟩ := tracks.live slot inUse
      exact ⟨renderer, stays renderer member here, rfl⟩
  · exact tracks.numbers.sublist (List.filter_sublist.map _)
  · exact fun renderer member => tracks.numbered renderer (remaining renderer member).1
  · exact tracks.slots.sublist (List.filter_sublist.map _)
  · intro renderer member latest
    obtain ⟨old, other⟩ := remaining renderer member
    have before := tracks.latestFirst renderer old latest
    rw [first, before, if_neg fun same => other (Option.some.inj same)]
  · intro slot same
    rw [first] at same
    split at same
    case isTrue => simp at same
    case isFalse elsewhere =>
      obtain ⟨renderer, member, latest, rfl⟩ := tracks.firstLatest slot same
      have other : renderer.slot ≠ cb := fun here => elsewhere (here ▸ same)
      exact ⟨renderer, stays renderer member other, latest, rfl⟩

theorem rendersAll_iff (tracks : Tracks display renderers) (result : Nat → Bool) :
    RendersAll result (display, renderers) ↔ renderers.OnlyLatest := by
  have rendered := oxiRenderAndPresent_spec tracks.unlinked result
  constructor
  · rintro ⟨trace, didError, returned, ⟨order, perm, called⟩, -⟩
    have lengths := perm.length_eq
    have counts := congrArg List.length called
    rw [List.length_map, List.length_map, lengths] at counts
    cases first : display.firstRenderCb with
    | none =>
        simp only [rendered, first, Except.ok.injEq, Prod.mk.injEq] at returned
        rw [← returned.1] at counts
        intro renderer member
        rw [List.length_eq_zero_iff.mp counts.symm] at member
        exact absurd member List.not_mem_nil
    | some cb =>
        obtain ⟨latest, latestMember, number, -⟩ := tracks.firstLatest cb first
        have single : renderers.live.length ≤ 1 := by
          simp only [rendered, first] at returned
          split at returned
          · simp at returned
          · simp only [Except.ok.injEq, Prod.mk.injEq] at returned
            rw [← counts, ← returned.1]
            exact Nat.le_refl 1
        intro renderer member
        obtain ⟨only, shape⟩ := List.length_eq_one_iff.mp
          (Nat.le_antisymm single (List.length_pos_of_mem member))
        rw [shape, List.mem_singleton] at member latestMember
        rw [member, ← latestMember, number]
  · intro onlyLatest
    cases shape : renderers.live with
    | nil =>
        have none : display.firstRenderCb = none := by
          cases first : display.firstRenderCb with
          | none => rfl
          | some cb =>
              obtain ⟨renderer, member, -⟩ := tracks.firstLatest cb first
              simp [shape] at member
        simp only [none] at rendered
        exact ⟨[], false, rendered, ⟨[], by simp [shape], rfl⟩, by simp⟩
    | cons renderer rest =>
        have alone : rest = [] := by
          have distinct := tracks.numbers
          rw [shape, List.map_cons, List.nodup_cons] at distinct
          refine List.eq_nil_iff_forall_not_mem.mpr fun other member => distinct.1 ?_
          have same : renderer.number = other.number :=
            (onlyLatest renderer (by simp [shape])).trans
              (onlyLatest other (by simp [shape, member])).symm
          exact List.mem_map.mpr ⟨other, member, same.symm⟩
        have member : renderer ∈ renderers.live := by simp [shape]
        obtain ⟨stored, callable⟩ := tracks.stored renderer member
        have first := tracks.latestFirst renderer member (onlyLatest renderer member)
        simp only [first, stored, callable, ↓reduceIte] at rendered
        exact ⟨_, _, rendered, ⟨[renderer], by simp [shape, alone], rfl⟩, by simp⟩

theorem step {state : DisplayState} (tracks : Tracks state.1 state.2) (op : DisplayOp)
    (proper : ProperCall state op) :
    ∃ after, displayStep state op = some after ∧ Tracks after.1 after.2 := by
  cases op with
  | register renderCb userData =>
      obtain ⟨cb, found⟩ := tracks.room proper.2
      refine ⟨_, rfl, ?_⟩
      simp only [found, Option.elim_some]
      exact tracks.register proper.1 found
  | deregister cb => exact ⟨_, rfl, tracks.deregister cb⟩

end Tracks

/-- After every run of proper calls, rendering calls all live callbacks exactly when there is none
but the last registered. -/
theorem renders_all_iff (sdlRenderer : Pointer) (ops : List DisplayOp)
    (proper : Along displayStep ProperCall (displayFresh sdlRenderer) ops)
    (result : Nat → Bool) :
    ∃ after, run displayStep (displayFresh sdlRenderer) ops = some after ∧
      (RendersAll result after ↔ after.2.OnlyLatest) := by
  obtain ⟨after, ran, tracks⟩ := run_invariant (fun state => Tracks state.1 state.2)
    (fun state op tracks proper => tracks.step op proper) (tracks_fresh sdlRenderer) proper
  exact ⟨after, ran, tracks.rendersAll_iff result⟩

theorem renders_all_iff_three :
    ∃ after, run displayStep (displayFresh 0x90)
        [.register 0x10 1, .register 0x20 2, .deregister ⟨0, by decide⟩] = some after ∧
      (RendersAll (fun _ => false) after ↔ after.2.OnlyLatest) :=
  renders_all_iff 0x90 _ (by decide) _

theorem second_callback_only :
    let ops : List DisplayOp := [.register 0x10 1, .register 0x20 2]
    Along displayStep ProperCall (displayFresh 0x90) ops ∧
      ∃ after, run displayStep (displayFresh 0x90) ops = some after ∧
        ¬RendersAll (fun _ => true) after := by
  intro ops
  have traced : (run displayStep (displayFresh 0x90) ops).map (fun after =>
      (oxiRenderAndPresent (fun _ => true) after.1, after.2.live.length)) =
        some (.ok ([(⟨0x20, 0x90, 2⟩, true)], false), 2) := by decide
  obtain ⟨after, ran, rendered⟩ := Option.map_eq_some_iff.mp traced
  obtain ⟨once, two⟩ := Prod.mk.inj rendered
  refine ⟨by decide, after, ran, ?_⟩
  rintro ⟨trace, didError, returned, ⟨order, perm, called⟩, -⟩
  have counts := congrArg List.length called
  rw [List.length_map, List.length_map, perm.length_eq, two] at counts
  rw [once, Except.ok.injEq, Prod.mk.injEq] at returned
  rw [← returned.1] at counts
  simp at counts

end YakUnshorn
