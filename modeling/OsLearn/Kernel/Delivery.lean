import OsLearn.Kernel.Interrupts

/-!
# Interrupts over whole runs

Requests, acknowledges, stubs and exceptions in any order. Each interrupt is ended once, by its own stub.
-/

open OsLearn.Run OsLearn.Pic

namespace OsLearn.Interrupts

/-! ## The invariant -/

/-- What may be in service, by what the stub still sends. -/
inductive Service : List (UInt16 × UInt8) → Pair → Prop
  | idle (p : Pair) : (∀ i, p.master.isr i = false) → (∀ i, p.slave.isr i = false) → Service [] p
  | master (p : Pair) : AtMostOne p.master.isr → (∀ i, p.slave.isr i = false) → Service [(0x20, OsLearn.EOI)] p
  | both (p : Pair) : AtMostOne p.master.isr → AtMostOne p.slave.isr → Service stub_outs p

/-- The vector that an event enters a stub with. -/
def Event.entered : Event → Option UInt8
  | .taken _ v => some v
  | .spurious v => some v
  | .fault v => some v
  | _ => none

def Event.handled : Event → Option UInt8
  | .called v => some v
  | _ => none

def Event.isFresh (l : Line) : Event → Bool
  | .raised l' fresh => l' = l && fresh
  | _ => false

def Event.isTaken (l : Line) : Event → Bool
  | .taken l' _ => l' = l
  | _ => false

/-- The vectors fit what the kernel is entered for: no line of a device has the vector of an exception. -/
def Event.Known : Event → Prop
  | .taken l v => (l, v) ∈ vector_of
  | .spurious v => v = 0x27 ∨ v = 0x2f
  | .fault v => v < 0x20
  | _ => True

structure Inv (log : List Event) (s : State) : Prop where
  configured : Configured s.pics
  service : Service s.sending s.pics
  off : s.sending ≠ [] → s.iflag = false ∧ s.hung = false
  still : s.hung = true → s.iflag = false
  hung : s.hung = true ↔ ∃ v, Event.called v ∈ log ∧ returns v = false
  order : log.filterMap Event.entered = log.filterMap Event.handled ++ if s.sending = [] then [] else [s.vector]
  known : ∀ e ∈ log, e.Known
  counts : ∀ l : Line, l ≠ 2 →
    log.countP (Event.isFresh l) = log.countP (Event.isTaken l) + (s.pics.requested l).toNat

theorem Inv.init (s : State) (h : Init s) : Inv [] s := by
  obtain ⟨⟨p, hm, hs, hp⟩, hif, hsend, hhung⟩ := h
  have hpics := hp.trans (pic_init_eq p)
  constructor
  · rw [hp]
    exact pic_init_configured p
  · rw [hsend]
    exact .idle _ (by rw [hpics]; exact hm) (by rw [hpics]; exact hs)
  · exact fun hne => absurd hsend hne
  · rw [hhung]
    exact fun h => nomatch h
  · simp [hhung]
  · simp [hsend]
  · simp
  · intro l _
    rw [hpics]
    unfold Pair.requested
    split <;> rfl

theorem Inv.idle (log : List Event) (s : State) (h : Inv log s) (hsend : s.sending = []) :
    (∀ i, s.pics.master.isr i = false) ∧ ∀ i, s.pics.slave.isr i = false := by
  have hservice := h.service
  rw [hsend] at hservice
  cases hservice with
  | idle p hm hs => exact ⟨hm, hs⟩

/-- A stub is entered, by whatever event. -/
theorem Inv.enter (log : List Event) (s : State) (h : Inv log s) (e : Event) (v : UInt8) (pics : Pair)
    (hsend : s.sending = []) (hhung : s.hung = false) (he : e.entered = some v) (hh : e.handled = none)
    (hf : ∀ l, e.isFresh l = false) (hk : e.Known) (hc : Configured pics) (hm : AtMostOne pics.master.isr)
    (hs : AtMostOne pics.slave.isr)
    (hcount : ∀ l, l ≠ 2 → (s.pics.requested l).toNat = (e.isTaken l).toNat + (pics.requested l).toNat) :
    Inv (log ++ [e]) (enter s v pics) := by
  have hne : stub_outs ≠ [] := by decide
  constructor
  · exact hc
  · exact .both _ hm hs
  · exact fun _ => ⟨rfl, hhung⟩
  · exact fun _ => rfl
  · have hnone : ∀ v, e ≠ .called v := by
      rintro v rfl
      cases hh
    show s.hung = true ↔ _
    rw [h.hung]
    simp only [List.mem_append, List.mem_singleton]
    constructor
    · rintro ⟨v, hv, hr⟩
      exact ⟨v, .inl hv, hr⟩
    · rintro ⟨v, hv | hv, hr⟩
      · exact ⟨v, hv, hr⟩
      · exact absurd hv.symm (hnone v)
  · have hold := h.order
    rw [if_pos hsend, List.append_nil] at hold
    show _ = _ ++ if stub_outs = [] then [] else [v]
    rw [List.filterMap_append, List.filterMap_append, hold, if_neg hne]
    simp [he, hh]
  · intro e' he'
    obtain he' | he' := List.mem_append.mp he'
    · exact h.known e' he'
    · exact List.mem_singleton.mp he' ▸ hk
  · intro l hl
    show _ = _ + (pics.requested l).toNat
    rw [List.countP_append, List.countP_append, h.counts l hl, hcount l hl]
    have h0 := hf l
    cases ht : e.isTaken l
    · simp [h0, ht]
    · simp [h0, ht]
      omega

theorem raise_isr (p : Pair) (l : Line) :
    (p.raise l).master.isr = p.master.isr ∧ (p.raise l).slave.isr = p.slave.isr := by
  unfold Pair.raise Chip.raise
  split <;> exact ⟨rfl, rfl⟩

theorem Service.raise (sending : List (UInt16 × UInt8)) (p : Pair) (h : Service sending p) (l : Line) :
    Service sending (p.raise l) := by
  obtain ⟨hm, hs⟩ := raise_isr p l
  cases h with
  | idle p h1 h2 => exact .idle _ (hm ▸ h1) (hs ▸ h2)
  | master p h1 h2 => exact .master _ (hm ▸ h1) (hs ▸ h2)
  | both p h1 h2 => exact .both _ (hm ▸ h1) (hs ▸ h2)

theorem Inv.raise (log : List Event) (s : State) (h : Inv log s) (l : Line) :
    Inv (log ++ [.raised l (!s.pics.requested l)]) { s with pics := s.pics.raise l } := by
  constructor
  · exact h.configured.raise _ l
  · exact h.service.raise _ _ l
  · exact h.off
  · exact h.still
  · show s.hung = true ↔ _
    rw [h.hung]
    simp
  · have h1 : [Event.raised l (!s.pics.requested l)].filterMap Event.entered = [] := rfl
    have h2 : [Event.raised l (!s.pics.requested l)].filterMap Event.handled = [] := rfl
    rw [List.filterMap_append, List.filterMap_append, h.order, h1, h2, List.append_nil, List.append_nil]
  · intro e he
    obtain he | he := List.mem_append.mp he
    · exact h.known e he
    · exact List.mem_singleton.mp he ▸ trivial
  · intro l' hl'
    show _ = _ + ((s.pics.raise l).requested l').toNat
    rw [List.countP_append, List.countP_append, h.counts l' hl', requested_raise]
    by_cases heq : l' = l
    · subst heq
      cases hreq : s.pics.requested l' <;> simp [Event.isFresh, Event.isTaken]
    · have hne : ¬ l = l' := fun h => heq h.symm
      simp [Event.isFresh, Event.isTaken, heq, hne]

theorem Inv.flag (log : List Event) (s : State) (h : Inv log s) (b : Bool) (hsend : s.sending = [])
    (hhung : s.hung = false) : Inv (log ++ []) { s with iflag := b } := by
  rw [List.append_nil]
  refine ⟨h.configured, h.service, fun hne => absurd hsend hne, fun ht => ?_, h.hung, h.order, h.known, h.counts⟩
  exact absurd (hhung.symm.trans ht) (by decide)

theorem eoi_requested (p : Pair) (l : Line) : { p with slave := p.slave.eoi }.requested l = p.requested l ∧
    { p with master := p.master.eoi }.requested l = p.requested l := by
  obtain ⟨-, -, -, -, hm⟩ := eoi_keeps p.master
  obtain ⟨-, -, -, -, hs⟩ := eoi_keeps p.slave
  unfold Pair.requested
  dsimp only
  rw [hm, hs]
  exact ⟨rfl, rfl⟩

/-- The end of the interrupt for the slave. -/
theorem Inv.sendSlave (log : List Event) (s : State) (h : Inv log s) (hsend : s.sending = stub_outs) :
    Inv (log ++ []) { s with pics := s.pics.out 0xa0 OsLearn.EOI, sending := [(0x20, OsLearn.EOI)] } := by
  rw [List.append_nil, out_slave_eoi]
  have hservice := h.service
  rw [hsend] at hservice
  generalize hl : stub_outs = l at hservice
  cases hservice with
  | idle => cases hl
  | master => cases hl
  | both p hm hs =>
    have hoff := h.off (by rw [hsend]; decide)
    refine ⟨h.configured.eoi.1, .master _ hm fun i => ?_, fun _ => hoff, h.still, h.hung, ?_, h.known, fun l' hl' => ?_⟩
    · show s.pics.slave.eoi.isr i = false
      rw [eoi_atMostOne _ hs]
    · have horder := h.order
      rw [hsend, if_neg (by decide)] at horder
      rw [if_neg (List.cons_ne_nil _ _)]
      exact horder
    · rw [(eoi_requested s.pics l').1]
      exact h.counts l' hl'

/-- The end of the interrupt for the master, and the call of the handler. -/
theorem Inv.sendMaster (log : List Event) (s : State) (h : Inv log s) (hsend : s.sending = [(0x20, OsLearn.EOI)]) :
    Inv (log ++ [.called s.vector])
      { s with pics := s.pics.out 0x20 OsLearn.EOI, sending := [], hung := !returns s.vector } := by
  rw [out_master_eoi]
  have hoff := h.off (by rw [hsend]; decide)
  have hservice := h.service
  rw [hsend] at hservice
  generalize hl : [((0x20 : UInt16), OsLearn.EOI)] = l at hservice
  cases hservice with
  | idle => cases hl
  | both => cases hl
  | master p hm hs =>
    refine ⟨h.configured.eoi.2, .idle _ (fun i => ?_) hs, fun hne => absurd rfl hne, fun _ => hoff.1, ?_, ?_, ?_,
      fun l' hl' => ?_⟩
    · show s.pics.master.eoi.isr i = false
      rw [eoi_atMostOne _ hm]
    · have hnone : ∀ v, Event.called v ∈ log → returns v = true := by
        intro v hv
        by_contra hr
        have := h.hung.mpr ⟨v, hv, by simpa using hr⟩
        rw [hoff.2] at this
        cases this
      show (!returns s.vector) = true ↔ _
      simp only [List.mem_append, List.mem_singleton, Bool.not_eq_true']
      constructor
      · exact fun hr => ⟨s.vector, .inr rfl, hr⟩
      · rintro ⟨v, hv | hv, hr⟩
        · rw [hnone v hv] at hr
          cases hr
        · cases hv
          exact hr
    · have horder := h.order
      rw [hsend, if_neg (by decide)] at horder
      rw [List.filterMap_append, List.filterMap_append, horder, if_pos rfl]
      simp [Event.entered, Event.handled]
    · intro e he
      obtain he | he := List.mem_append.mp he
      · exact h.known e he
      · exact List.mem_singleton.mp he ▸ trivial
    · show _ = _ + ({ s.pics with master := s.pics.master.eoi }.requested l').toNat
      rw [(eoi_requested s.pics l').2, List.countP_append, List.countP_append, h.counts l' hl']
      simp [Event.isFresh, Event.isTaken]

/-! ## One step -/

theorem Inv.step (log : List Event) (s s' : State) (a : Action) (evs : List Event) (h : Inv log s)
    (hs : step s a = .ok (s', evs)) : Inv (log ++ evs) s' := by
  have hidle := h.idle
  have hrunning : s.iflag = true → s.hung = false := by
    intro hif
    by_contra hh
    have := h.still (by simpa using hh)
    rw [hif] at this
    cases this
  cases a with
  | raise l =>
    simp only [Interrupts.step] at hs
    split at hs
    · cases hs
    · cases hs
      exact h.raise _ _ l
  | inta =>
    simp only [Interrupts.step] at hs
    split at hs
    · rename_i hon
      split at hs
      · rename_i l v pics hp
        cases hs
        obtain ⟨hm, hsl⟩ := hidle hon.2
        obtain ⟨hvec, hreq, hnot, hother⟩ := inta_some _ _ _ _ h.configured hp
        obtain ⟨hm', hsl'⟩ := inta_service _ _ _ _ hm hsl hp
        refine h.enter _ _ (.taken l v) v pics hon.2 (hrunning hon.1) rfl rfl (fun _ => rfl) hvec
          (h.configured.inta _ _ _ _ hp) hm' hsl' fun l' hl' => ?_
        by_cases heq : l' = l
        · subst heq
          rw [hreq, hnot]
          simp [Event.isTaken]
        · rw [hother l' heq hl']
          simp [Event.isTaken, Ne.symm heq]
      · cases hs
    · cases hs
  | glitch ofSlave =>
    simp only [Interrupts.step] at hs
    split at hs
    · rename_i hon
      cases hs
      obtain ⟨hm, hsl⟩ := hidle hon.2
      obtain ⟨hm', hsl'⟩ := spurious_service s.pics ofSlave hm hsl
      refine h.enter _ _ (.spurious _) _ _ hon.2 (hrunning hon.1) rfl rfl (fun _ => rfl) ?_
        (h.configured.spurious _ ofSlave) hm' hsl' fun l' hl' => ?_
      · unfold Pair.spurious
        rw [h.configured.master_base, h.configured.slave_base]
        cases ofSlave with
        | false => exact .inl rfl
        | true => exact .inr rfl
      · rw [spurious_requested _ _ _ hl']
        simp [Event.isTaken]
    · cases hs
  | exception v =>
    simp only [Interrupts.step] at hs
    split at hs
    · rename_i hon
      cases hs
      obtain ⟨hm, hsl⟩ := hidle hon.2.1
      refine h.enter _ _ (.fault v) v s.pics hon.2.1 hon.2.2 rfl rfl (fun _ => rfl) hon.1 h.configured (.inl hm)
        (.inl hsl) fun l' _ => ?_
      simp [Event.isTaken]
    · cases hs
  | send =>
    simp only [Interrupts.step] at hs
    have hservice := h.service
    generalize hsend : s.sending = sending at hs hservice
    cases hservice with
    | idle => cases hs
    | master =>
      cases hs
      exact h.sendMaster _ _ hsend
    | both =>
      cases hs
      exact h.sendSlave _ _ hsend
  | flag b =>
    simp only [Interrupts.step] at hs
    split at hs
    · rename_i hon
      cases hs
      exact h.flag _ _ b hon.1 hon.2
    · cases hs

theorem reach_inv (log : List Event) (s : State) (h : Reach system anyStep log s) : Inv log s :=
  reach_invariant system anyStep Inv Inv.init (fun log s a s' evs hi _ hs => hi.step log s s' a evs hs) log s h

/-! ## One tick -/

/-- A chip as it is after power-up. -/
def sampleChip : Chip where
  irr _ := false
  isr _ := false
  imr _ := false
  base := 0
  cascade := 0
  phase := .ready
  single := false
  needs4 := false
  auto := false

def sampleState : State where
  pics := pic_init { master := sampleChip, slave := sampleChip }
  iflag := false
  sending := []
  vector := 0
  hung := false

theorem sample_init : system.init sampleState :=
  ⟨⟨_, fun _ => rfl, fun _ => rfl, rfl⟩, rfl, rfl, rfl⟩

/-- The timer, from its request to its handler. -/
def sampleRun : List Action := [.raise ⟨0, Nat.zero_lt_succ _⟩, .flag true, .inta, .send, .send]

theorem sample_reach : ∃ s, Reach system anyStep [.raised 0 true, .taken 0 0x20, .called 0x20] s ∧ s.sending = [] := by
  have hplay : ∃ s, play system anyStep [] sampleState sampleRun =
      some ([.raised 0 true, .taken 0 0x20, .called 0x20], s) ∧ s.sending = [] := ⟨_, rfl, rfl⟩
  obtain ⟨s, hs, hsend⟩ := hplay
  exact ⟨s, reach_play _ _ [] sampleState sampleRun _ s (.init _ sample_init) hs, hsend⟩

/-! ## The whole run -/

theorem returns_iff (v : UInt8) : returns v = true ↔ v ∈ [0x20, 0x21, 0x27, 0x2f] := by
  unfold returns idt_table register_handler exception_init
  simp only [List.mem_cons, List.not_mem_nil, or_false]
  by_cases h1 : v = 0x21
  · simp [h1]
  · by_cases h0 : v = 0x20
    · simp [h0]
    · simp [h0, h1]

/-- **Dispatch.** A device line never comes in with the vector of an exception. The timer and the keyboard come
to their handlers. The kernel spins in `general_intr_handler` as soon as it is called for any vector but the two
spurious ones, and that takes an exception or a request of the disk, whose line is open. -/
theorem interrupts_dispatched (log : List Event) (s : State) (h : Reach system anyStep log s) :
    (∀ l v, Event.taken l v ∈ log → (l, v) ∈ vector_of) ∧
    idt_table 0x20 = .intr_timer_handler ∧ idt_table 0x21 = .intr_keyboard_handler ∧
    (s.hung = true ↔ ∃ v, Event.called v ∈ log ∧ v ∉ [0x20, 0x21, 0x27, 0x2f]) ∧
    (s.hung = true → s.iflag = false ∧ ((∃ v, Event.fault v ∈ log) ∨ Event.raised 14 true ∈ log)) := by
  have hinv := reach_inv log s h
  have hspin : s.hung = true ↔ ∃ v, Event.called v ∈ log ∧ v ∉ [0x20, 0x21, 0x27, 0x2f] := by
    rw [hinv.hung]
    refine exists_congr fun v => and_congr_right fun _ => ?_
    rw [← returns_iff]
    simp
  refine ⟨fun l v hv => hinv.known _ hv, rfl, rfl, hspin, fun hh => ⟨hinv.still hh, ?_⟩⟩
  obtain ⟨v, hv, hnot⟩ := hspin.mp hh
  have hent : v ∈ log.filterMap Event.entered := by
    rw [hinv.order]
    exact List.mem_append_left _ (List.mem_filterMap.mpr ⟨_, hv, rfl⟩)
  obtain ⟨e, he, hev⟩ := List.mem_filterMap.mp hent
  have hk := hinv.known e he
  cases e with
  | raised => cases hev
  | called => cases hev
  | fault w => exact .inl ⟨w, he⟩
  | spurious w =>
    cases hev
    obtain rfl | rfl := hk <;> exact absurd (by decide) hnot
  | taken l w =>
    cases hev
    have hk : (l, v) ∈ vector_of := hk
    unfold vector_of at hk
    simp only [List.mem_cons, Prod.mk.injEq, List.not_mem_nil, or_false] at hk
    obtain ⟨rfl, rfl⟩ | ⟨rfl, rfl⟩ | ⟨rfl, rfl⟩ := hk
    · exact absurd (by decide) hnot
    · exact absurd (by decide) hnot
    · right
      have htaken : 0 < log.countP (Event.isTaken 14) := List.countP_pos_iff.mpr ⟨_, he, rfl⟩
      have hfresh : 0 < log.countP (Event.isFresh 14) := by
        rw [hinv.counts 14 (by decide)]
        omega
      obtain ⟨e, he', hfe⟩ := List.countP_pos_iff.mp hfresh
      cases e with
      | raised l fresh =>
        simp only [Event.isFresh, Bool.and_eq_true, decide_eq_true_eq] at hfe
        obtain ⟨rfl, rfl⟩ := hfe
        exact he'
      | taken => cases hfe
      | spurious => cases hfe
      | fault => cases hfe
      | called => cases hfe

theorem interrupts_dispatched_tick : ∃ s : State, s.hung = false ∧ s.sending = [] := by
  obtain ⟨s, hr, hsend⟩ := sample_reach
  obtain ⟨-, -, -, hspin, -⟩ := interrupts_dispatched _ s hr
  refine ⟨s, ?_, hsend⟩
  by_contra hh
  obtain ⟨v, hv, hnot⟩ := hspin.mp (by simpa using hh)
  simp only [List.mem_cons, reduceCtorEq, List.not_mem_nil, or_false, Event.called.injEq, false_or] at hv
  subst hv
  exact hnot (by decide)

end OsLearn.Interrupts
