import Mymuduo.Timers.TimerQueue

namespace Mymuduo.Timers

open Lib

namespace TimerQueue

variable {clock : Nat → Int}

/-- The set holds the live timers, each under its expiration, apart from those at the
addresses `out`, which `handleRead` has taken out. -/
structure Tracks (out : List Nat) (s : TimerQueue) : Prop where
  entries : ∀ e p, toLex (e, p) ∈ s.timers_ ↔ p ∉ out ∧ ∃ t, s.heap p = some t ∧ t.expiration_ = e
  live : ∀ p ∈ out, ∃ t, s.heap p = some t
  addresses : ∀ p t, s.heap p = some t → p < UINTPTR_MAX
  sound : s.fault = false

/-- Every timer ever made is live, or was run and is not repeating; the timers at the
addresses `ran` were run and are still live. -/
structure Logged (ran : List Nat) (s : TimerQueue) : Prop where
  numbered : s.created.map Timer.sequence = List.range s.created.length
  liveMade : ∀ p t, s.heap p = some t → ∃ c ∈ s.created, c.sequence = t.sequence ∧ c.repeat_ = t.repeat_
  ranMade : ∀ t ∈ s.executed, ∃ c ∈ s.created, c.sequence = t.sequence ∧ c.repeat_ = t.repeat_
  distinct : ∀ p q t u, s.heap p = some t → s.heap q = some u → t.sequence = u.sequence → p = q
  gone : ∀ t ∈ s.executed, t.repeat_ = false → ∀ p u, s.heap p = some u → u.sequence = t.sequence →
    p ∈ ran
  once : ((s.executed.filter (!·.repeat_)).map Timer.sequence).Nodup
  wasRun : ∀ p ∈ ran, ∀ u, s.heap p = some u → u.sequence ∈ s.executed.map Timer.sequence
  kept : ∀ c ∈ s.created, (∃ p t, s.heap p = some t ∧ t.sequence = c.sequence) ∨
    c.repeat_ = false ∧ c.sequence ∈ s.executed.map Timer.sequence

theorem deref_eq {s : TimerQueue} {p : Nat} {t : Timer} (h : s.heap p = some t) :
    s.deref p = (t, s) := by
  rw [deref]
  rw [h]

theorem tracks_init : Tracks [] init := by
  constructor
  · intro e p
    constructor
    · intro h
      cases h
    · intro h
      obtain ⟨-, t, ht, -⟩ := h
      cases ht
  · intro p hp
    cases hp
  · intro p t ht
    cases ht
  · rfl

theorem logged_init : Logged [] init := by
  constructor
  · rfl
  · intro p t ht
    cases ht
  · intro t ht
    cases ht
  · intro p q t u ht
    cases ht
  · intro t ht
    cases ht
  · exact List.nodup_nil
  · intro p hp
    cases hp
  · intro c hc
    cases hc

/-- What `Tracks` and `Logged` speak of is the same in both states. -/
structure SameTimers (s s' : TimerQueue) : Prop where
  timers_ : s'.timers_ = s.timers_
  heap : s'.heap = s.heap
  created : s'.created = s.created
  executed : s'.executed = s.executed
  fault : s'.fault = s.fault

theorem Tracks.congr {out : List Nat} {s s' : TimerQueue} (h : Tracks out s)
    (hs : SameTimers s s') : Tracks out s' := by
  constructor
  · rw [hs.timers_, hs.heap]
    exact h.entries
  · rw [hs.heap]
    exact h.live
  · rw [hs.heap]
    exact h.addresses
  · rw [hs.fault]
    exact h.sound

theorem Logged.congr {ran : List Nat} {s s' : TimerQueue} (h : Logged ran s)
    (hheap : s'.heap = s.heap) (hcreated : s'.created = s.created)
    (hexecuted : s'.executed = s.executed) : Logged ran s' := by
  constructor
  · rw [hcreated]
    exact h.numbered
  · rw [hheap, hcreated]
    exact h.liveMade
  · rw [hexecuted, hcreated]
    exact h.ranMade
  · rw [hheap]
    exact h.distinct
  · rw [hexecuted, hheap]
    exact h.gone
  · rw [hexecuted]
    exact h.once
  · rw [hheap, hexecuted]
    exact h.wasRun
  · rw [hcreated, hheap, hexecuted]
    exact h.kept

theorem Logged.reorder {ran ran' : List Nat} {s : TimerQueue} (h : Logged ran s)
    (hran : ∀ p, p ∈ ran ↔ p ∈ ran') : Logged ran' s := by
  refine ⟨h.numbered, h.liveMade, h.ranMade, h.distinct, ?_, h.once, ?_, h.kept⟩
  · intro t ht hshot p u hu hseq
    exact (hran p).mp (h.gone t ht hshot p u hu hseq)
  · intro p hp
    exact h.wasRun p ((hran p).mpr hp)

theorem resetTimerfd_same (s : TimerQueue) (expiration : Int) :
    SameTimers s (s.resetTimerfd clock expiration) := ⟨rfl, rfl, rfl, rfl, rfl⟩

/-- `insert` finds the timer to be earlier than all in the set. -/
def earlier (s : TimerQueue) (t : Timer) : Bool :=
  match s.timers_.first with
  | none => true
  | some it => t.expiration_ < (ofLex it).1

/-- The set with an entry for the timer `t` at `p`. -/
def enter (s : TimerQueue) (p : Nat) (t : Timer) : TimerQueue :=
  { s with timers_ := s.timers_.insert (toLex (t.expiration_, p)) }

theorem insert_eq {s : TimerQueue} {p : Nat} {t : Timer} (h : s.heap p = some t) :
    s.insert p = (s.earlier t, s.enter p t) := by
  rw [insert]
  rw [deref_eq h]
  rfl

theorem addTimerInLoop_eq {s : TimerQueue} {p : Nat} {t : Timer} (h : s.heap p = some t) :
    s.addTimerInLoop clock p =
      if s.earlier t then (s.enter p t).resetTimerfd clock t.expiration_ else s.enter p t := by
  have hderef : (s.enter p t).deref p = (t, s.enter p t) := deref_eq h
  rw [addTimerInLoop]
  rw [insert_eq h]
  simp only [hderef]

/-- `addTimerInLoop` adds the entry of the timer and, at most, sets the timerfd. -/
theorem addTimerInLoop_same {s : TimerQueue} {p : Nat} {t : Timer} (h : s.heap p = some t) :
    SameTimers (s.enter p t) (s.addTimerInLoop clock p) := by
  rw [addTimerInLoop_eq h]
  split_ifs
  · exact resetTimerfd_same _ _
  · exact ⟨rfl, rfl, rfl, rfl, rfl⟩

/-- The timers after the timer `t` was made at `p` and entered. -/
def withTimer (s : TimerQueue) (p : Nat) (t : Timer) : TimerQueue :=
  { s with
    timers_ := s.timers_.insert (toLex (t.expiration_, p))
    heap := Function.update s.heap p (some t)
    created := s.created ++ [t] }

theorem addTimer_spec {s s' : TimerQueue} {new : NewTimer} (hs : s.addTimer clock new = some s') :
    s.heap new.address = none ∧ new.address < UINTPTR_MAX ∧
      SameTimers (s.withTimer new.address ⟨new.when, new.repeat_, new.delta, s.created.length⟩) s' := by
  rw [addTimer] at hs
  split_ifs at hs with hfree
  obtain rfl := Option.some.inj hs
  refine ⟨hfree.1, hfree.2, ?_⟩
  generalize (⟨new.when, new.repeat_, new.delta, s.created.length⟩ : Timer) = t
  have hheap : heap { s with
      heap := Function.update s.heap new.address (some t)
      created := s.created ++ [t] } new.address = some t := Function.update_self _ _ _
  exact addTimerInLoop_same hheap

theorem tracks_withTimer {out : List Nat} {s : TimerQueue} (h : Tracks out s) {p : Nat} {t : Timer}
    (hfree : s.heap p = none) (hmax : p < UINTPTR_MAX) : Tracks out (s.withTimer p t) := by
  have hout : p ∉ out := by
    intro hp
    obtain ⟨u, hu⟩ := h.live p hp
    rw [hfree] at hu
    cases hu
  constructor
  · intro e q
    simp only [withTimer, OrderedSet.mem_insert, h.entries]
    by_cases hq : q = p
    · subst hq
      simp [hfree, hout, eq_comm]
    · simp [hq]
  · intro q hq
    have hne : q ≠ p := by
      intro he
      exact hout (he ▸ hq)
    simpa [withTimer, hne] using h.live q hq
  · intro q u hu
    by_cases hq : q = p
    · rw [hq]
      exact hmax
    · apply h.addresses q u
      simpa [withTimer, hq] using hu
  · exact h.sound

theorem Logged.sequence_lt {ran : List Nat} {s : TimerQueue} (h : Logged ran s) {c : Timer}
    (hc : c ∈ s.created) : c.sequence < s.created.length := by
  rw [← List.mem_range, ← h.numbered]
  exact List.mem_map_of_mem hc

/-- A timer is known by its number. -/
theorem Logged.eq_of_sequence {ran : List Nat} {s : TimerQueue} (h : Logged ran s) {c d : Timer}
    (hc : c ∈ s.created) (hd : d ∈ s.created) (hseq : c.sequence = d.sequence) : c = d := by
  have hnodup : (s.created.map Timer.sequence).Nodup := by
    rw [h.numbered]
    exact List.nodup_range
  exact List.inj_on_of_nodup_map hnodup hc hd hseq

/-- A live timer repeats if it was made to. -/
theorem Logged.repeat_eq {ran : List Nat} {s : TimerQueue} (h : Logged ran s) {p : Nat} {t c : Timer}
    (ht : s.heap p = some t) (hc : c ∈ s.created) (hseq : c.sequence = t.sequence) :
    c.repeat_ = t.repeat_ := by
  obtain ⟨d, hd, hdt, hdrep⟩ := h.liveMade p t ht
  have hsame : c = d := h.eq_of_sequence hc hd (hseq.trans hdt.symm)
  rw [hsame, hdrep]

/-- A timer that is live or was run is older than the next one. -/
theorem Logged.live_lt {ran : List Nat} {s : TimerQueue} (h : Logged ran s) {p : Nat} {t : Timer}
    (ht : s.heap p = some t) : t.sequence < s.created.length := by
  obtain ⟨c, hc, hseq, -⟩ := h.liveMade p t ht
  rw [← hseq]
  exact h.sequence_lt hc

theorem Logged.ran_lt {ran : List Nat} {s : TimerQueue} (h : Logged ran s) {t : Timer}
    (ht : t ∈ s.executed) : t.sequence < s.created.length := by
  obtain ⟨c, hc, hseq, -⟩ := h.ranMade t ht
  rw [← hseq]
  exact h.sequence_lt hc

theorem logged_withTimer {ran : List Nat} {s : TimerQueue} (h : Logged ran s) {p : Nat} {t : Timer}
    (hfree : s.heap p = none) (hran : p ∉ ran) (hnew : t.sequence = s.created.length) :
    Logged ran (s.withTimer p t) := by
  have hcases : ∀ q u, (s.withTimer p t).heap q = some u →
      (q = p ∧ u = t) ∨ (q ≠ p ∧ s.heap q = some u) := by
    intro q u hu
    by_cases hq : q = p
    · subst hq
      left
      refine ⟨rfl, ?_⟩
      simpa [withTimer, eq_comm] using hu
    · right
      refine ⟨hq, ?_⟩
      simpa [withTimer, hq] using hu
  have hold : ∀ q u, s.heap q = some u → (s.withTimer p t).heap q = some u := by
    intro q u hu
    have hq : q ≠ p := by
      intro he
      rw [he, hfree] at hu
      cases hu
    simpa [withTimer, hq] using hu
  have hmade : ∀ c ∈ s.created, c ∈ (s.withTimer p t).created := by
    intro c hc
    exact List.mem_append_left _ hc
  constructor
  · simp only [withTimer, List.map_append, h.numbered, List.map_cons, List.map_nil, hnew,
      List.length_append, List.length_cons, List.length_nil, List.range_succ, Nat.zero_add]
  · intro q u hu
    rcases hcases q u hu with ⟨-, rfl⟩ | ⟨-, hu⟩
    · exact ⟨u, List.mem_append_right _ (List.mem_singleton.mpr rfl), rfl, rfl⟩
    · obtain ⟨c, hc, hseq⟩ := h.liveMade q u hu
      exact ⟨c, hmade c hc, hseq⟩
  · intro u hu
    obtain ⟨c, hc, hseq⟩ := h.ranMade u hu
    exact ⟨c, hmade c hc, hseq⟩
  · intro q r u v hu hv huv
    rcases hcases q u hu with ⟨hq, hut⟩ | ⟨-, hu⟩
    · rcases hcases r v hv with ⟨hr, -⟩ | ⟨-, hv⟩
      · rw [hq, hr]
      · have hlt := h.live_lt hv
        rw [← huv, hut, hnew] at hlt
        exact absurd hlt (lt_irrefl _)
    · rcases hcases r v hv with ⟨-, hvt⟩ | ⟨-, hv⟩
      · have hlt := h.live_lt hu
        rw [huv, hvt, hnew] at hlt
        exact absurd hlt (lt_irrefl _)
      · exact h.distinct q r u v hu hv huv
  · intro u hu hshot q v hv huv
    rcases hcases q v hv with ⟨rfl, rfl⟩ | ⟨-, hv⟩
    · have := h.ran_lt hu
      omega
    · exact h.gone u hu hshot q v hv huv
  · exact h.once
  · intro q hq u hu
    rcases hcases q u hu with ⟨rfl, -⟩ | ⟨-, hu⟩
    · exact absurd hq hran
    · exact h.wasRun q hq u hu
  · intro c hc
    rcases List.mem_append.mp hc with hc | hc
    · rcases h.kept c hc with ⟨q, u, hu, hseq⟩ | hrun
      · exact Or.inl ⟨q, u, hold q u hu, hseq⟩
      · exact Or.inr hrun
    · rw [List.mem_singleton.mp hc]
      exact Or.inl ⟨p, t, by simp [withTimer], rfl⟩

/-- `t` is the timer that the call makes. -/
def Makes (new : NewTimer) (t : Timer) : Prop :=
  t.expiration_ = new.when ∧ t.repeat_ = new.repeat_ ∧ t.delta = new.delta

/-- What the `addTimer` calls `news` do: the timers of `s` stay as they are, each call makes its
timer at an address that was free, and no other timers appear. -/
structure Grows (news : List NewTimer) (s s' : TimerQueue) : Prop where
  free : ∀ new ∈ news, s.heap new.address = none
  stays : ∀ p t, s.heap p = some t → s'.heap p = some t
  made : ∀ new ∈ news, ∃ t, s'.heap new.address = some t ∧ Makes new t ∧ t ∈ s'.created
  only : ∀ p t, s'.heap p = some t → s.heap p = some t ∨ ∃ new ∈ news, new.address = p
  created : s.created <+: s'.created

theorem Grows.refl (s : TimerQueue) : Grows [] s s :=
  ⟨fun _ hnew => absurd hnew List.not_mem_nil, fun _ _ ht => ht,
    fun _ hnew => absurd hnew List.not_mem_nil, fun _ _ ht => Or.inl ht, List.prefix_rfl⟩

theorem Grows.trans {news news' : List NewTimer} {s u s' : TimerQueue} (h : Grows news s u)
    (h' : Grows news' u s') : Grows (news ++ news') s s' := by
  refine ⟨?_, fun p t ht => h'.stays p t (h.stays p t ht), ?_, ?_, h.created.trans h'.created⟩
  · intro new hnew
    rcases List.mem_append.mp hnew with hnew | hnew
    · exact h.free new hnew
    · by_contra htaken
      obtain ⟨t, ht⟩ := Option.ne_none_iff_exists'.mp htaken
      have hstays := h.stays _ t ht
      rw [h'.free new hnew] at hstays
      cases hstays
  · intro new hnew
    rcases List.mem_append.mp hnew with hnew | hnew
    · obtain ⟨t, ht, hmakes, hmem⟩ := h.made new hnew
      exact ⟨t, h'.stays _ t ht, hmakes, h'.created.subset hmem⟩
    · exact h'.made new hnew
  · intro p t ht
    rcases h'.only p t ht with hold | ⟨new, hnew, hp⟩
    · rcases h.only p t hold with hfirst | ⟨new, hnew, hp⟩
      · exact Or.inl hfirst
      · exact Or.inr ⟨new, List.mem_append_left _ hnew, hp⟩
    · exact Or.inr ⟨new, List.mem_append_right _ hnew, hp⟩

theorem addTimer_grows {s s' : TimerQueue} {new : NewTimer} (hs : s.addTimer clock new = some s') :
    Grows [new] s s' := by
  obtain ⟨hfree, -, hsame⟩ := addTimer_spec hs
  constructor
  · intro n hn
    rw [List.mem_singleton.mp hn]
    exact hfree
  · intro p t ht
    have hne : p ≠ new.address := by
      intro he
      rw [he, hfree] at ht
      cases ht
    rw [hsame.heap]
    simpa [withTimer, hne] using ht
  · intro n hn
    rw [List.mem_singleton.mp hn, hsame.heap, hsame.created]
    exact ⟨_, Function.update_self _ _ _, ⟨rfl, rfl, rfl⟩,
      List.mem_append_right _ (List.mem_singleton.mpr rfl)⟩
  · intro p t ht
    by_cases hp : p = new.address
    · exact Or.inr ⟨new, List.mem_singleton.mpr rfl, hp.symm⟩
    · rw [hsame.heap] at ht
      exact Or.inl (by simpa [withTimer, hp] using ht)
  · rw [hsame.created]
    exact List.prefix_append _ _

/-- What the `addTimer` calls of a callback preserve. -/
theorem addTimers_spec {out ran : List Nat} {news : List NewTimer} {s s' : TimerQueue}
    (h : Tracks out s) (hlog : Logged ran s) (hran : ran ⊆ out)
    (hs : addTimers clock news s = some s') :
    Tracks out s' ∧ Logged ran s' ∧ Grows news s s' ∧ s'.executed = s.executed := by
  induction news generalizing s with
  | nil =>
    obtain rfl := Option.some.inj hs
    exact ⟨h, hlog, Grows.refl s, rfl⟩
  | cons new news ih =>
    obtain ⟨u, hu, hs⟩ := Option.bind_eq_some_iff.mp hs
    obtain ⟨hfree, hmax, hsame⟩ := addTimer_spec hu
    have hnew : new.address ∉ ran := by
      intro hp
      obtain ⟨t, ht⟩ := h.live _ (hran hp)
      rw [hfree] at ht
      cases ht
    have htracks := (tracks_withTimer h hfree hmax).congr hsame
    have hlogged := (logged_withTimer hlog hfree hnew rfl).congr hsame.heap hsame.created hsame.executed
    obtain ⟨h1, h2, hgrow, hexec⟩ := ih htracks hlogged hs
    exact ⟨h1, h2, (addTimer_grows hu).trans hgrow, hexec.trans hsame.executed⟩

/-- `new` can give the calls `news` the addresses they say: all are free, and no two are equal. -/
def Fresh (s : TimerQueue) (news : List NewTimer) : Prop :=
  (news.map NewTimer.address).Nodup ∧
    ∀ new ∈ news, s.heap new.address = none ∧ new.address < UINTPTR_MAX

theorem addTimer_returns (clock : Nat → Int) {s : TimerQueue} {new : NewTimer}
    (hfree : s.heap new.address = none) (hmax : new.address < UINTPTR_MAX) :
    ∃ s', s.addTimer clock new = some s' :=
  ⟨_, if_pos ⟨hfree, hmax⟩⟩

/-- Calls that take no address in `news` leave them fresh. -/
theorem Fresh.grows {s s' : TimerQueue} {news done : List NewTimer} (h : s.Fresh (done ++ news))
    (hgrow : Grows done s s') : s'.Fresh news := by
  obtain ⟨hnodup, hfree⟩ := h
  rw [List.map_append, List.nodup_append] at hnodup
  obtain ⟨-, hrest, hapart⟩ := hnodup
  refine ⟨hrest, ?_⟩
  intro new hnew
  obtain ⟨hold, hmax⟩ := hfree new (List.mem_append_right _ hnew)
  refine ⟨?_, hmax⟩
  by_contra htaken
  obtain ⟨t, ht⟩ := Option.ne_none_iff_exists'.mp htaken
  rcases hgrow.only _ t ht with hin | ⟨n, hn, heq⟩
  · rw [hold] at hin
    cases hin
  · exact hapart _ (List.mem_map_of_mem hn) _ (List.mem_map_of_mem hnew) heq

theorem addTimers_returns (clock : Nat → Int) {news rest : List NewTimer} {s : TimerQueue}
    (h : s.Fresh (news ++ rest)) : ∃ s', addTimers clock news s = some s' ∧ Grows news s s' := by
  induction news generalizing s with
  | nil => exact ⟨s, rfl, Grows.refl s⟩
  | cons new news ih =>
    obtain ⟨hfree, hmax⟩ := h.2 new List.mem_cons_self
    obtain ⟨u, hu⟩ := addTimer_returns clock hfree hmax
    have hone : Grows [new] s u := addTimer_grows hu
    have hall : s.Fresh ([new] ++ (news ++ rest)) := h
    have hfresh : u.Fresh (news ++ rest) := hall.grows hone
    obtain ⟨s', hs', hgrow⟩ := ih hfresh
    refine ⟨s', ?_, hone.trans hgrow⟩
    rw [addTimers, hu]
    exact hs'

theorem runTimer_eq {s : TimerQueue} {p : Nat} {t : Timer} (ht : s.heap p = some t) :
    s.runTimer p = { s with executed := s.executed ++ [t] } := by
  rw [runTimer]
  rw [deref_eq ht]

theorem tracks_runTimer {out : List Nat} {s : TimerQueue} (h : Tracks out s) {p : Nat} {t : Timer}
    (ht : s.heap p = some t) : Tracks out (s.runTimer p) := by
  rw [runTimer_eq ht]
  exact ⟨h.entries, h.live, h.addresses, h.sound⟩

theorem logged_runTimer {ran : List Nat} {s : TimerQueue} (h : Logged ran s) {p : Nat} {t : Timer}
    (ht : s.heap p = some t) (hp : p ∉ ran) : Logged (p :: ran) (s.runTimer p) := by
  rw [runTimer_eq ht]
  have hnew : ∀ u ∈ s.executed, u.repeat_ = false → u.sequence ≠ t.sequence := by
    intro u hu hshot hseq
    exact hp (h.gone u hu hshot p t ht hseq.symm)
  constructor
  · exact h.numbered
  · exact h.liveMade
  · intro u hu
    rcases List.mem_append.mp hu with hu | hu
    · exact h.ranMade u hu
    · rw [List.mem_singleton.mp hu]
      exact h.liveMade p t ht
  · exact h.distinct
  · intro u hu hshot q v hv hseq
    rcases List.mem_append.mp hu with hu | hu
    · exact List.mem_cons_of_mem _ (h.gone u hu hshot q v hv hseq)
    · rw [List.mem_singleton.mp hu] at hseq
      rw [h.distinct q p v t hv ht hseq]
      exact List.mem_cons_self
  · cases hrep : t.repeat_ with
    | true => simpa [hrep] using h.once
    | false =>
      simp only [List.filter_append, List.map_append, List.filter_cons, hrep, Bool.not_false,
        if_true, List.filter_nil, List.map_cons, List.map_nil]
      apply List.nodup_append.mpr
      refine ⟨h.once, List.nodup_singleton _, ?_⟩
      intro a ha b hb
      obtain ⟨u, hu, rfl⟩ := List.mem_map.mp ha
      rw [List.mem_singleton.mp hb]
      obtain ⟨hu, hshot⟩ := List.mem_filter.mp hu
      exact hnew u hu (by simpa using hshot)
  · intro q hq u hu
    rw [List.map_append]
    rcases List.mem_cons.mp hq with rfl | hq
    · apply List.mem_append_right
      obtain rfl := Option.some.inj (ht.symm.trans hu)
      simp
    · exact List.mem_append_left _ (h.wasRun q hq u hu)
  · intro c hc
    rcases h.kept c hc with hlive | ⟨hrep, hrun⟩
    · exact Or.inl hlive
    · rw [List.map_append]
      exact Or.inr ⟨hrep, List.mem_append_left _ hrun⟩

/-- The addresses of the timers of some entries. -/
def addressesOf (es : List Entry) : List Nat := es.map fun it => (ofLex it).2

/-- The `addTimer` calls that the callbacks of these timers make. -/
def callsOf (calls : Nat → List NewTimer) (es : List Entry) : List NewTimer :=
  es.flatMap fun it => calls (ofLex it).2

theorem runTimer_grows {s : TimerQueue} {p : Nat} {t : Timer} (ht : s.heap p = some t) :
    Grows [] s (s.runTimer p) := by
  rw [runTimer_eq ht]
  exact ⟨fun _ hnew => absurd hnew List.not_mem_nil, fun _ _ hp => hp,
    fun _ hnew => absurd hnew List.not_mem_nil, fun _ _ hp => Or.inl hp, List.prefix_rfl⟩

/-- The loop of `handleRead` runs the timers of its entries, in order; the callbacks leave all
timers alone that there are. -/
theorem runExpired_spec {calls : Nat → List NewTimer} {out : List Nat} {es : List Entry}
    {ran : List Nat} {s s' : TimerQueue} (h : Tracks out s) (hlog : Logged ran s) (hran : ran ⊆ out)
    (hes : addressesOf es ⊆ out) (hnodup : (addressesOf es).Nodup)
    (hdis : ∀ p ∈ addressesOf es, p ∉ ran) (hs : runExpired clock calls es s = some s') :
    Tracks out s' ∧ Logged ((addressesOf es).reverse ++ ran) s' ∧
      Grows (callsOf calls es) s s' ∧ ∃ ts : List Timer, (es.map fun it => s.heap (ofLex it).2) = ts.map some ∧
        s'.executed = s.executed ++ ts := by
  induction es generalizing s ran with
  | nil =>
    obtain rfl := Option.some.inj hs
    exact ⟨h, hlog, Grows.refl s, [], rfl, (List.append_nil _).symm⟩
  | cons it es ih =>
    obtain ⟨u, hu, hs⟩ := Option.bind_eq_some_iff.mp hs
    have hp : (ofLex it).2 ∈ addressesOf (it :: es) := List.mem_cons_self
    obtain ⟨t, ht⟩ := h.live _ (hes hp)
    have hsub : (ofLex it).2 :: ran ⊆ out := List.cons_subset.mpr ⟨hes hp, hran⟩
    obtain ⟨htracks, hlogged, hgrow, hexec⟩ := addTimers_spec (tracks_runTimer h ht)
      (logged_runTimer hlog ht (hdis _ hp)) hsub hu
    obtain ⟨hnot, hrest⟩ := List.nodup_cons.mp hnodup
    have hdis' : ∀ p ∈ addressesOf es, p ∉ (ofLex it).2 :: ran := by
      intro p hmem hcons
      rcases List.mem_cons.mp hcons with rfl | hold
      · exact hnot hmem
      · exact hdis p (List.mem_cons_of_mem _ hmem) hold
    obtain ⟨h1, h2, h3, ts, hts, hexec'⟩ := ih htracks hlogged hsub
      (fun p hmem => hes (List.mem_cons_of_mem _ hmem)) hrest hdis' hs
    have hmore : Grows (calls (ofLex it).2) s u := (runTimer_grows ht).trans hgrow
    rw [runTimer_eq ht] at hexec
    refine ⟨h1, ?_, hmore.trans h3, t :: ts, ?_, ?_⟩
    · simpa [addressesOf] using h2
    · have hheap : (es.map fun it => s.heap (ofLex it).2) = es.map fun it => u.heap (ofLex it).2 := by
        apply List.map_congr_left
        intro x hx
        have hmem : (ofLex x).2 ∈ addressesOf (it :: es) :=
          List.mem_cons_of_mem _ (List.mem_map_of_mem hx)
        obtain ⟨v, hv⟩ := h.live _ (hes hmem)
        rw [hv, hmore.stays _ v hv]
      rw [List.map_cons, List.map_cons, ht, hheap, hts]
    · rw [hexec', hexec]
      simp

/-- The loop returns where the addresses that its callbacks ask for can be given. -/
theorem runExpired_returns (clock : Nat → Int) {calls : Nat → List NewTimer} {es : List Entry}
    {s : TimerQueue} (hlive : ∀ p ∈ addressesOf es, ∃ t, s.heap p = some t)
    (h : s.Fresh (callsOf calls es)) : ∃ s', runExpired clock calls es s = some s' := by
  induction es generalizing s with
  | nil => exact ⟨s, rfl⟩
  | cons it es ih =>
    obtain ⟨t, ht⟩ := hlive _ List.mem_cons_self
    have hrun : Grows [] s (s.runTimer (ofLex it).2) := runTimer_grows ht
    have hall : s.Fresh ([] ++ (calls (ofLex it).2 ++ callsOf calls es)) := h
    have hfresh := hall.grows hrun
    obtain ⟨u, hu, hgrow⟩ := addTimers_returns clock hfresh
    obtain ⟨s', hs'⟩ := ih (fun p hp => by
      obtain ⟨v, hv⟩ := hlive p (List.mem_cons_of_mem _ hp)
      exact ⟨v, hgrow.stays p v (hrun.stays p v hv)⟩) (hfresh.grows hgrow)
    refine ⟨s', ?_⟩
    rw [runExpired, hu]
    exact hs'

/-- The timer that `reset` leaves in the place of `t`. -/
def after (t : Timer) (now : Int) : Option Timer := if t.repeat_ then some (t.restart now) else none

/-- The timer at `p`, which is not in the set, is replaced, and then entered. -/
def replace (s : TimerQueue) (p : Nat) (o : Option Timer) : TimerQueue :=
  { s with
    heap := Function.update s.heap p o
    timers_ := match o with
      | some t => s.timers_.insert (toLex (t.expiration_, p))
      | none => s.timers_ }

theorem restartOrDelete_same {s : TimerQueue} {p : Nat} {t : Timer} (ht : s.heap p = some t) :
    SameTimers (s.replace p (after t (clock s.reads))) (s.restartOrDelete clock p) := by
  rw [restartOrDelete, after]
  rw [deref_eq ht]
  cases hrep : t.repeat_ with
  | false =>
    simp only [hrep, Bool.false_eq_true, if_false]
    exact ⟨rfl, rfl, rfl, rfl, rfl⟩
  | true =>
    simp only [hrep, if_true, now]
    have hheap : heap { s with
        heap := Function.update s.heap p (some (t.restart (clock s.reads)))
        reads := s.reads + 1 } p = some (t.restart (clock s.reads)) := Function.update_self _ _ _
    rw [insert_eq hheap]
    exact ⟨rfl, rfl, rfl, rfl, rfl⟩

theorem tracks_replace {out : List Nat} {s : TimerQueue} {p : Nat} (h : Tracks (p :: out) s)
    (hp : p ∉ out) (o : Option Timer) : Tracks out (s.replace p o) := by
  obtain ⟨t, ht⟩ := h.live p List.mem_cons_self
  have hne : ∀ q ∈ out, q ≠ p := by
    intro q hq he
    exact hp (he ▸ hq)
  constructor
  · intro e q
    have hentry := h.entries e q
    by_cases hq : q = p
    · subst hq
      cases o with
      | none => simpa [replace] using hentry
      | some u => simpa [replace, OrderedSet.mem_insert, hp, hentry] using eq_comm
    · cases o with
      | none => simpa [replace, hq] using hentry
      | some u => simpa [replace, OrderedSet.mem_insert, hq] using hentry
  · intro q hq
    simpa [replace, hne q hq] using h.live q (List.mem_cons_of_mem _ hq)
  · intro q u hu
    by_cases hq : q = p
    · rw [hq]
      exact h.addresses p t ht
    · apply h.addresses q u
      simpa [replace, hq] using hu
  · exact h.sound

/-- A timer that is live after the replacement was live before, with the same number. -/
theorem replace_heap_cases {s : TimerQueue} {p q : Nat} {t u : Timer} {now : Int}
    (ht : s.heap p = some t) (hu : (s.replace p (after t now)).heap q = some u) :
    ∃ v, s.heap q = some v ∧ v.sequence = u.sequence ∧ v.repeat_ = u.repeat_ ∧
      (q = p → t.repeat_ = true) := by
  by_cases hq : q = p
  · subst hq
    have hafter : after t now = some u := by simpa [replace] using hu
    rw [after] at hafter
    split_ifs at hafter with hrep
    obtain rfl := Option.some.inj hafter
    exact ⟨t, ht, rfl, rfl, fun _ => hrep⟩
  · refine ⟨u, ?_, rfl, rfl, fun he => absurd he hq⟩
    simpa [replace, hq] using hu

theorem logged_replace {ran : List Nat} {s : TimerQueue} {p : Nat} {t : Timer}
    (h : Logged (p :: ran) s) (hp : p ∉ ran) (ht : s.heap p = some t) (now : Int) :
    Logged ran (s.replace p (after t now)) := by
  constructor
  · exact h.numbered
  · intro q u hu
    obtain ⟨v, hv, hseq, hrep, -⟩ := replace_heap_cases ht hu
    rw [← hseq, ← hrep]
    exact h.liveMade q v hv
  · exact h.ranMade
  · intro q r u v hu hv huv
    obtain ⟨u', hu', hseq, -⟩ := replace_heap_cases ht hu
    obtain ⟨v', hv', hseq', -⟩ := replace_heap_cases ht hv
    apply h.distinct q r u' v' hu' hv'
    rw [hseq, hseq', huv]
  · intro u hu hshot q v hv hseq
    obtain ⟨v', hv', hseq', -, hrep⟩ := replace_heap_cases ht hv
    have hmem := h.gone u hu hshot q v' hv' (hseq'.trans hseq)
    rcases List.mem_cons.mp hmem with hq | hmem
    · obtain ⟨c, hc, hcu, hcrep⟩ := h.ranMade u hu
      rw [hq, ht] at hv'
      obtain rfl := Option.some.inj hv'
      have hct : c.sequence = t.sequence := by rw [hcu, hseq', hseq]
      have hsame := h.repeat_eq ht hc hct
      rw [hcrep, hshot, hrep hq] at hsame
      cases hsame
    · exact hmem
  · exact h.once
  · intro q hq u hu
    obtain ⟨v, hv, hseq, -⟩ := replace_heap_cases ht hu
    rw [← hseq]
    exact h.wasRun q (List.mem_cons_of_mem _ hq) v hv
  · intro c hc
    rcases h.kept c hc with ⟨q, u, hu, hseq⟩ | hrun
    · by_cases hq : q = p
      · subst hq
        obtain rfl := Option.some.inj (ht.symm.trans hu)
        cases hrep : t.repeat_ with
        | true =>
          left
          refine ⟨q, t.restart now, ?_, hseq⟩
          simp [replace, after, hrep]
        | false =>
          right
          refine ⟨?_, ?_⟩
          · rw [h.repeat_eq ht hc hseq.symm, hrep]
          · rw [← hseq]
            exact h.wasRun q List.mem_cons_self t ht
      · left
        refine ⟨q, u, ?_, hseq⟩
        simpa [replace, hq] using hu
    · exact Or.inr hrun

/-- The timerfd is set for the expiration of the first entry, if there is one. -/
def Armed (s : TimerQueue) : Prop :=
  ∀ it ∈ s.timers_.first, ∃ now, s.armed = some (timespec (ofLex it).1 now)

/-- The end of a round of `reset` finds the first entry's timer live, with the expiration that
the entry has. -/
theorem armFirst_spec (clock : Nat → Int) {out : List Nat} {s : TimerQueue} (h : Tracks out s) :
    SameTimers s (s.armFirst clock) ∧ (s.armFirst clock).Armed := by
  cases hfirst : s.timers_.first with
  | none =>
    have heq : s.armFirst clock = s := by
      rw [armFirst]
      rw [hfirst]
    rw [heq]
    refine ⟨⟨rfl, rfl, rfl, rfl, rfl⟩, ?_⟩
    intro it hit
    rw [hfirst] at hit
    cases hit
  | some it =>
    obtain ⟨hmem, -⟩ := OrderedSet.first_eq_some.mp hfirst
    obtain ⟨-, t, ht, hexp⟩ := (h.entries (ofLex it).1 (ofLex it).2).mp hmem
    have heq : s.armFirst clock = s.resetTimerfd clock (ofLex it).1 := by
      rw [armFirst]
      rw [hfirst]
      simp only [deref_eq ht, hexp]
    rw [heq]
    refine ⟨resetTimerfd_same s _, ?_⟩
    intro x hx
    have hx' : s.timers_.first = some x := hx
    rw [hfirst] at hx'
    obtain rfl := Option.some.inj hx'
    exact ⟨clock s.reads, rfl⟩

/-- What `reset` makes of the timers of the expired entries; all others stay. -/
theorem reset_spec {es : List Entry} {s : TimerQueue} (h : Tracks (addressesOf es) s)
    (hlog : Logged (addressesOf es) s) (hnodup : (addressesOf es).Nodup) :
    Tracks [] (reset clock es s) ∧ Logged [] (reset clock es s) ∧
      (reset clock es s).executed = s.executed ∧ (reset clock es s).created = s.created ∧
      (∀ p, p ∉ addressesOf es → (reset clock es s).heap p = s.heap p) ∧
      (∀ p ∈ addressesOf es, ∀ t, s.heap p = some t →
        ∃ n, (reset clock es s).heap p = after t (clock n)) ∧
      (es ≠ [] → (reset clock es s).Armed) := by
  induction es generalizing s with
  | nil =>
    refine ⟨h, hlog, rfl, rfl, fun _ _ => rfl, ?_, fun hne => absurd rfl hne⟩
    intro p hp
    cases hp
  | cons it es ih =>
    obtain ⟨hp, hrest⟩ := List.nodup_cons.mp hnodup
    obtain ⟨t, ht⟩ := h.live (ofLex it).2 List.mem_cons_self
    have hsame : SameTimers _ (s.restartOrDelete clock (ofLex it).2) := restartOrDelete_same ht
    have htracks : Tracks (addressesOf es) (s.restartOrDelete clock (ofLex it).2) :=
      (tracks_replace h hp _).congr hsame
    have hlogged : Logged (addressesOf es) (s.restartOrDelete clock (ofLex it).2) :=
      (logged_replace hlog hp ht _).congr hsame.heap hsame.created hsame.executed
    obtain ⟨harm, harmed⟩ := armFirst_spec clock htracks
    obtain ⟨h1, h2, hexec, hmade, hother, hexp, harmed'⟩ := ih (htracks.congr harm)
      (hlogged.congr harm.heap harm.created harm.executed) hrest
    have hheap : (armFirst clock (restartOrDelete clock s (ofLex it).2)).heap =
        Function.update s.heap (ofLex it).2 (after t (clock s.reads)) :=
      harm.heap.trans hsame.heap
    rw [hheap] at hother hexp
    refine ⟨h1, h2, hexec.trans (harm.executed.trans hsame.executed),
      hmade.trans (harm.created.trans hsame.created), ?_, ?_, ?_⟩
    · intro p hmem
      have hne : p ≠ (ofLex it).2 ∧ p ∉ addressesOf es := by simpa [addressesOf] using hmem
      exact (hother p hne.2).trans (Function.update_of_ne hne.1 _ _)
    · intro p hmem u hu
      by_cases hpi : p = (ofLex it).2
      · rw [hpi, ht] at hu
        obtain rfl := Option.some.inj hu
        refine ⟨s.reads, ?_⟩
        rw [hpi]
        exact (hother _ hp).trans (Function.update_self _ _ _)
      · have hmem' : p ∈ addressesOf es := (List.mem_cons.mp hmem).resolve_left hpi
        apply hexp p hmem' u
        rw [Function.update_of_ne hpi]
        exact hu
    · intro _
      cases es with
      | nil => exact harmed
      | cons it' es => exact harmed' (List.cons_ne_nil _ _)

end TimerQueue

end Mymuduo.Timers
