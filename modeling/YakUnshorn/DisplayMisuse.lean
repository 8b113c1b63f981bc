import YakUnshorn.DisplayRuns
import YakUnshorn.Lib.Chain

/-!
Rendering after any calls at all: null callbacks, a full store, and slots that are deregistered
twice or while they are free. What a caller can do with what registering returns.
-/

namespace YakUnshorn

open LinkedChain

def displayApply (display : OxDisplay) : DisplayOp → OxDisplay
  | .register renderCb userData => (oxRegisterRenderCb display renderCb userData).1
  | .deregister cb => oxDeregisterRenderCb display cb

def displayAfter (sdlRenderer : Pointer) (ops : List DisplayOp) : OxDisplay :=
  ops.foldl displayApply (oxiMakeDisplay sdlRenderer)

def OxDisplay.nextCb (display : OxDisplay) (slot : RenderSlot) : Option RenderSlot :=
  (display.renderCbStore slot).next

/-- No slot has a next one, and the first slot is in use. -/
structure OxDisplay.Walkable (display : OxDisplay) : Prop where
  unlinked : display.Unlinked
  firstInUse : ∀ slot, display.firstRenderCb = some slot → (display.callback slot).1 ≠ 0

theorem oxRegisterRenderCb_refused {display : OxDisplay} {renderCb : Pointer} (userData : Pointer)
    (refused : renderCb = 0 ∨ availRenderCb display = none) :
    oxRegisterRenderCb display renderCb userData = (display, .null) := by
  by_cases null : renderCb = 0
  · rw [oxRegisterRenderCb, if_pos null]
  · rw [oxRegisterRenderCb, if_neg null, refused.resolve_left null]

theorem oxRegisterRenderCb_filled {display : OxDisplay} {renderCb : Pointer} (userData : Pointer)
    (callable : renderCb ≠ 0) {cb : RenderSlot} (found : availRenderCb display = some cb) :
    (oxRegisterRenderCb display renderCb userData).2 = .unspecified := by
  rw [oxRegisterRenderCb, if_neg callable, found]

namespace OxDisplay.Walkable

variable {display : OxDisplay}

theorem fresh (sdlRenderer : Pointer) : (oxiMakeDisplay sdlRenderer).Walkable where
  unlinked _ := rfl
  firstInUse slot first := by simp [oxiMakeDisplay] at first

theorem register (walkable : display.Walkable) (renderCb userData : Pointer) :
    (oxRegisterRenderCb display renderCb userData).1.Walkable := by
  by_cases refused : renderCb = 0 ∨ availRenderCb display = none
  · rw [oxRegisterRenderCb_refused userData refused]
    exact walkable
  · obtain ⟨callable, some⟩ := not_or.mp refused
    obtain ⟨cb, found⟩ := Option.ne_none_iff_exists'.mp some
    obtain ⟨unlinked, first, -, callback⟩ :=
      oxRegisterRenderCb_spec walkable.unlinked userData callable found rfl
    refine ⟨unlinked, fun slot same => ?_⟩
    rw [first] at same
    rw [callback, ← Option.some.inj same, Function.update_self]
    exact callable

theorem deregister (walkable : display.Walkable) (cb : RenderSlot) :
    (oxDeregisterRenderCb display cb).Walkable := by
  obtain ⟨unlinked, first, -, callback⟩ := oxDeregisterRenderCb_spec walkable.unlinked cb rfl
  refine ⟨unlinked, fun slot same => ?_⟩
  rw [first] at same
  split at same
  case isTrue => cases same
  case isFalse other =>
    have different : slot ≠ cb := fun here => other (here ▸ same)
    rw [callback, Function.update_of_ne different]
    exact walkable.firstInUse slot same

theorem apply (walkable : display.Walkable) (op : DisplayOp) :
    (displayApply display op).Walkable := by
  cases op with
  | register renderCb userData => exact walkable.register renderCb userData
  | deregister cb => exact walkable.deregister cb

theorem after (sdlRenderer : Pointer) (ops : List DisplayOp) :
    (displayAfter sdlRenderer ops).Walkable := by
  have kept : ∀ (ops : List DisplayOp) (display : OxDisplay), display.Walkable →
      (ops.foldl displayApply display).Walkable := by
    intro ops
    induction ops with
    | nil => exact fun display walkable => walkable
    | cons op rest ih => exact fun display walkable => ih _ (walkable.apply op)
  exact kept ops _ (fresh sdlRenderer)

theorem chain (walkable : display.Walkable) :
    ∃ visited, Chain display.nextCb display.firstRenderCb visited ∧
      ∀ slot ∈ visited, (display.callback slot).1 ≠ 0 := by
  cases first : display.firstRenderCb with
  | none => exact ⟨[], rfl, by simp⟩
  | some cb =>
      refine ⟨[cb], ⟨rfl, walkable.unlinked cb⟩, fun slot member => ?_⟩
      rw [List.mem_singleton.mp member]
      exact walkable.firstInUse cb first

theorem renders (walkable : display.Walkable) (result : Nat → Bool) :
    ∃ rendered, oxiRenderAndPresent result display = .ok rendered := by
  rw [oxiRenderAndPresent_spec walkable.unlinked]
  cases first : display.firstRenderCb with
  | none => exact ⟨_, rfl⟩
  | some cb => exact ⟨_, if_neg (walkable.firstInUse cb first)⟩

theorem keeps_live (walkable : display.Walkable) {op : DisplayOp} {slot : RenderSlot}
    (inUse : (display.callback slot).1 ≠ 0) (other : op ≠ .deregister slot) :
    (displayApply display op).callback slot = display.callback slot := by
  cases op with
  | register renderCb userData =>
      by_cases refused : renderCb = 0 ∨ availRenderCb display = none
      · rw [displayApply, oxRegisterRenderCb_refused userData refused]
      · obtain ⟨callable, some⟩ := not_or.mp refused
        obtain ⟨cb, found⟩ := Option.ne_none_iff_exists'.mp some
        obtain ⟨-, -, -, callback⟩ :=
          oxRegisterRenderCb_spec walkable.unlinked userData callable found rfl
        have different : slot ≠ cb := by
          rintro rfl
          exact inUse (availRenderCb_some found)
        rw [displayApply, callback, Function.update_of_ne different]
  | deregister cb =>
      obtain ⟨-, -, -, callback⟩ := oxDeregisterRenderCb_spec walkable.unlinked cb rfl
      have different : slot ≠ cb := fun same => other (same ▸ rfl)
      rw [displayApply, callback, Function.update_of_ne different]

end OxDisplay.Walkable

/-- After any calls the walk over the callbacks ends and finds no null pointer, and what is
registered stays as it is until it is deregistered. -/
theorem rendering_safe (sdlRenderer : Pointer) (ops : List DisplayOp) :
    (∃ visited,
        Chain (displayAfter sdlRenderer ops).nextCb (displayAfter sdlRenderer ops).firstRenderCb
          visited ∧
        ∀ slot ∈ visited, ((displayAfter sdlRenderer ops).callback slot).1 ≠ 0) ∧
      (∀ result, ∃ rendered,
        oxiRenderAndPresent result (displayAfter sdlRenderer ops) = .ok rendered) ∧
      ∀ op slot, ((displayAfter sdlRenderer ops).callback slot).1 ≠ 0 →
        op ≠ .deregister slot →
        (displayAfter sdlRenderer (ops ++ [op])).callback slot =
          (displayAfter sdlRenderer ops).callback slot := by
  have walkable := OxDisplay.Walkable.after sdlRenderer ops
  refine ⟨walkable.chain, walkable.renders, fun op slot inUse other => ?_⟩
  rw [displayAfter, List.foldl_append]
  exact walkable.keeps_live inUse other

/-- What the caller may see: where there is no return statement, anything. -/
def RegisterResult.Yields : RegisterResult → Option RenderSlot → Prop
  | .null, handle => handle = none
  | .unspecified, _ => True

def SameRendering (display other : OxDisplay) : Prop :=
  ∀ result, oxiRenderAndPresent result other = oxiRenderAndPresent result display

/-- Whatever handle the caller sees is null exactly when nothing was stored, and else that of the
slot that was free and is filled now; deregistering it undoes the registration. -/
def HandleUndoes (display : OxDisplay) (renderCb userData : Pointer) : Prop :=
  let (after, returned) := oxRegisterRenderCb display renderCb userData
  ∀ handle, returned.Yields handle →
    (handle = none ↔ after.callback = display.callback) ∧
    ∀ cb, handle = some cb → (display.callback cb).1 = 0 ∧
      after.callback cb = (renderCb, userData) ∧
      SameRendering display (oxDeregisterRenderCb after cb)

theorem handleUndoes_iff (display : OxDisplay) {renderCb : Pointer} (userData : Pointer)
    (callable : renderCb ≠ 0) (unlinked : display.Unlinked) :
    HandleUndoes display renderCb userData ↔ availRenderCb display = none := by
  constructor
  · intro undoes
    by_contra free
    obtain ⟨cb, found⟩ := Option.ne_none_iff_exists'.mp free
    obtain ⟨-, -, -, callback⟩ :=
      oxRegisterRenderCb_spec unlinked userData callable found rfl
    have yields : (oxRegisterRenderCb display renderCb userData).2.Yields none := by
      rw [oxRegisterRenderCb_filled userData callable found]
      trivial
    have kept := (undoes none yields).1.mp rfl
    have here := congrFun (kept.symm.trans callback) cb
    rw [Function.update_self] at here
    exact callable ((congrArg Prod.fst here).symm.trans (availRenderCb_some found))
  · intro full
    rw [HandleUndoes, oxRegisterRenderCb_refused userData (Or.inr full)]
    rintro handle rfl
    exact ⟨iff_of_true rfl rfl, fun cb same => by cases same⟩

/-- Even for the caller that finds out the slot, the callbacks drawn before come back only if there
were none. -/
theorem deregister_restores_iff {display : OxDisplay} (walkable : display.Walkable)
    {renderCb : Pointer} (userData : Pointer) (callable : renderCb ≠ 0) {cb : RenderSlot}
    (found : availRenderCb display = some cb) :
    SameRendering display
        (oxDeregisterRenderCb (oxRegisterRenderCb display renderCb userData).1 cb) ↔
      display.firstRenderCb = none := by
  obtain ⟨unlinked, first, -, -⟩ :=
    oxRegisterRenderCb_spec walkable.unlinked userData callable found rfl
  obtain ⟨lastUnlinked, last, -, -⟩ := oxDeregisterRenderCb_spec unlinked cb rfl
  rw [first, if_pos rfl] at last
  have blank : ∀ result, oxiRenderAndPresent result
      (oxDeregisterRenderCb (oxRegisterRenderCb display renderCb userData).1 cb) =
        .ok ([], false) := by
    intro result
    rw [oxiRenderAndPresent_spec lastUnlinked, last]
  constructor
  · intro same
    cases drawn : display.firstRenderCb with
    | none => rfl
    | some slot =>
        have alike := same fun _ => true
        rw [blank, oxiRenderAndPresent_spec walkable.unlinked, drawn] at alike
        simp [walkable.firstInUse slot drawn] at alike
  · intro none result
    rw [blank, oxiRenderAndPresent_spec walkable.unlinked, none]

/-- After any calls, a registration can be undone by what it returns only where it finds no slot;
by the slot it fills, only where nothing was drawn. -/
theorem handle_undoes_registration_iff (sdlRenderer : Pointer) (ops : List DisplayOp)
    {renderCb : Pointer} (userData : Pointer) (callable : renderCb ≠ 0) :
    (HandleUndoes (displayAfter sdlRenderer ops) renderCb userData ↔
        availRenderCb (displayAfter sdlRenderer ops) = none) ∧
      ∀ cb, availRenderCb (displayAfter sdlRenderer ops) = some cb →
        (SameRendering (displayAfter sdlRenderer ops) (oxDeregisterRenderCb
            (oxRegisterRenderCb (displayAfter sdlRenderer ops) renderCb userData).1 cb) ↔
          (displayAfter sdlRenderer ops).firstRenderCb = none) := by
  have walkable := OxDisplay.Walkable.after sdlRenderer ops
  exact ⟨handleUndoes_iff _ userData callable walkable.unlinked,
    fun cb found => deregister_restores_iff walkable userData callable found⟩

theorem handle_undoes_registration_iff_second :
    (HandleUndoes (displayAfter 0x90 [.register 0x10 1]) 0x20 2 ↔
        availRenderCb (displayAfter 0x90 [.register 0x10 1]) = none) ∧
      ∀ cb, availRenderCb (displayAfter 0x90 [.register 0x10 1]) = some cb →
        (SameRendering (displayAfter 0x90 [.register 0x10 1]) (oxDeregisterRenderCb
            (oxRegisterRenderCb (displayAfter 0x90 [.register 0x10 1]) 0x20 2).1 cb) ↔
          (displayAfter 0x90 [.register 0x10 1]).firstRenderCb = none) :=
  handle_undoes_registration_iff 0x90 [.register 0x10 1] 2 (by decide)

theorem first_registration_returns_nothing :
    (oxRegisterRenderCb (oxiMakeDisplay 0x90) 0x10 1).2 = .unspecified ∧
      ¬HandleUndoes (oxiMakeDisplay 0x90) 0x10 1 := by
  refine ⟨by decide, fun undoes => ?_⟩
  have kept := (undoes none trivial).1.mp rfl
  have here := congrFun kept ⟨0, by decide⟩
  revert here
  decide

end YakUnshorn
