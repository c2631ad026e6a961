import OsLearn.Lib.Spec

/-!
# `kernel/debug.h`: ASSERT and PANIC

A failed check prints its place and spins for ever, so here it stops the run. A `Site` names the
check: the function of the source, then the condition.
-/

namespace OsLearn

/-- `global.h` -/
def NULL : UInt32 := 0

/-- The ASSERT and PANIC lines of the code that is modelled. Two more: the page fault, whose handler
spins too, and a write over the kernel itself. -/
inductive Site where
  | schedule_intr_off
  | schedule_ready_elem_find
  | schedule_list_empty
  | thread_start_ready_elem_find
  | thread_start_all_elem_find
  | make_main_thread_all_elem_find
  | process_execute_ready_elem_find
  | process_execute_all_elem_find
  | process_activate_p_thread
  | thread_block_stat
  | thread_unblock_stat
  | thread_unblock_ready_elem_find
  | sema_down_waiters_elem_find
  | sema_down_value
  | sema_up_value
  | sema_up_value_one
  | lock_acquire_repeat_nr
  | lock_release_holder
  | lock_release_repeat_nr
  | ioq_intr_off
  | ioq_wait_waiter
  | wakeup_waiter
  | timer_stack_magic
  | bitmap_scan_idx_byte
  | vaddr_get_user_top
  | page_table_add_pte
  | page_table_add_pte_repeat
  | page_table_add_new_pte
  | malloc_page_pg_cnt
  | get_a_page_bit_idx
  | get_a_page_not_allowed
  | memset_dst
  | memcpy_dst
  | memcpy_src
  | memcmp_a
  | memcmp_b
  | strlen_str
  | strcmp_a
  | strcmp_b
  | strchr_str
  | strrchr_str
  | strcat_dst
  | strcat_src
  | strchrs_str
  | page_fault
  | kernel_image
  deriving DecidableEq, Repr

/-- The checks that look a tag up on a list. -/
def Site.elemFind : Site → Bool
  | .schedule_ready_elem_find | .thread_start_ready_elem_find | .thread_start_all_elem_find
  | .make_main_thread_all_elem_find | .thread_unblock_ready_elem_find
  | .process_execute_ready_elem_find | .process_execute_all_elem_find
  | .sema_down_waiters_elem_find => true
  | _ => false

inductive Stop where
  -- The action is not one that can happen now.
  | notNow
  -- A check failed: `panic_spin` runs for ever.
  | panic (site : Site)
  deriving DecidableEq, Repr

def ASSERT (cond : Prop) [Decidable cond] (site : Site) : Except Stop Unit :=
  if cond then .ok () else .error (.panic site)

def ASSERT_in (ndebug : Bool) (cond : Prop) [Decidable cond] (site : Site) : Except Stop Unit :=
  if ndebug then .ok () else ASSERT cond site

@[simp]
theorem ASSERT_in_false (cond : Prop) [Decidable cond] (site : Site) : ASSERT_in false cond site = ASSERT cond site :=
  rfl

@[simp]
theorem ASSERT_in_true (cond : Prop) [Decidable cond] (site : Site) : ASSERT_in true cond site = .ok () := rfl

theorem ASSERT_in_of (ndebug : Bool) (cond : Prop) [Decidable cond] (site : Site) (h : cond) :
    ASSERT_in ndebug cond site = .ok () := by
  unfold ASSERT_in ASSERT
  rw [if_pos h, ite_self]

def PANIC {α : Type} (site : Site) : Except Stop α := .error (.panic site)

@[simp]
theorem spec_ASSERT (cond : Prop) [Decidable cond] (site : Site) (P : Unit → Prop) (E : Stop → Prop) :
    Spec (ASSERT cond site) P E ↔ (cond → P ()) ∧ (¬ cond → E (.panic site)) := by
  unfold ASSERT
  split <;> simp_all

@[simp]
theorem spec_ASSERT_in (ndebug : Bool) (cond : Prop) [Decidable cond] (site : Site) (P : Unit → Prop)
    (E : Stop → Prop) :
    Spec (ASSERT_in ndebug cond site) P E ↔
      (ndebug = true ∨ cond → P ()) ∧ (ndebug = false → ¬ cond → E (.panic site)) := by
  unfold ASSERT_in
  cases ndebug <;> simp

end OsLearn
