import Mymuduo.Timers.Pending

namespace Mymuduo.Timers

open Lib

namespace TimerQueue

variable {clock : Nat → Int}

/-- The sentry cuts the set behind the entries that are due. -/
theorem lt_sentry {it : Entry} {now : Int} (h : (ofLex it).2 < UINTPTR_MAX) :
    it < sentry now ↔ (ofLex it).1 ≤ now := by
  rw [sentry]
  rw [Prod.Lex.lt_iff]
  simp only [ofLex_toLex]
  constructor
  · intro hlt
    rcases hlt with hlt | ⟨heq, -⟩
    · exact hlt.le
    · exact heq.le
  · intro hle
    rcases hle.lt_or_eq with hlt | heq
    · exact Or.inl hlt
    · exact Or.inr ⟨heq, h⟩

/-- The timer of an entry. -/
theorem Tracks.timer {out : List Nat} {s : TimerQueue} (h : Tracks out s) {it : Entry}
    (hit : it ∈ s.timers_) : ∃ t, s.heap (ofLex it).2 = some t ∧ t.expiration_ = (ofLex it).1 :=
  ((h.entries (ofLex it).1 (ofLex it).2).mp hit).2

theorem Tracks.lt_sentry {out : List Nat} {s : TimerQueue} (h : Tracks out s) {it : Entry}
    (hit : it ∈ s.timers_) (now : Int) : it < sentry now ↔ (ofLex it).1 ≤ now := by
  obtain ⟨t, ht, -⟩ := h.timer hit
  exact TimerQueue.lt_sentry (h.addresses _ t ht)

theorem Tracks.eq_of_address {out : List Nat} {s : TimerQueue} (h : Tracks out s) {it it' : Entry}
    (hit : it ∈ s.timers_) (hit' : it' ∈ s.timers_) (heq : (ofLex it).2 = (ofLex it').2) :
    it = it' := by
  obtain ⟨t, ht, hexp⟩ := h.timer hit
  obtain ⟨u, hu, hexp'⟩ := h.timer hit'
  rw [heq, hu] at ht
  obtain rfl := Option.some.inj ht
  exact Prod.ext (hexp.symm.trans hexp') heq

/-- The expired entries are the due ones, each with an address of its own. -/
theorem Tracks.expired {s : TimerQueue} (h : Tracks [] s) (now : Int) :
    (∀ it, it ∈ s.timers_.below (sentry now) ↔ it ∈ s.timers_ ∧ (ofLex it).1 ≤ now) ∧
      (addressesOf (s.timers_.below (sentry now))).Nodup := by
  have hmem : ∀ it, it ∈ s.timers_.below (sentry now) ↔ it ∈ s.timers_ ∧ (ofLex it).1 ≤ now := by
    intro it
    rw [OrderedSet.mem_below]
    exact and_congr_right fun hit => h.lt_sentry hit now
  refine ⟨hmem, ?_⟩
  apply List.Nodup.map_on
  · intro it hit it' hit' heq
    exact h.eq_of_address ((hmem it).mp hit).1 ((hmem it').mp hit').1 heq
  · rw [OrderedSet.below_eq_filter]
    exact (s.timers_.sorted.imp ne_of_lt).filter _

theorem tracks_getExpired {s : TimerQueue} (h : Tracks [] s) (now : Int) :
    Tracks (addressesOf (s.getExpired now).1) (s.getExpired now).2 := by
  obtain ⟨hmem, -⟩ := h.expired now
  constructor
  · intro e p
    rw [getExpired]
    rw [OrderedSet.mem_above, h.entries]
    constructor
    · intro hin
      obtain ⟨⟨-, t, ht, hexp⟩, hge⟩ := hin
      refine ⟨?_, t, ht, hexp⟩
      intro hp
      obtain ⟨it, hit, rfl⟩ := List.mem_map.mp hp
      have hboth := OrderedSet.mem_below.mp hit
      obtain ⟨u, hu, hexp'⟩ := h.timer hboth.1
      rw [hu] at ht
      obtain rfl := Option.some.inj ht
      have heq : it = toLex (e, (ofLex it).2) := Prod.ext (hexp'.symm.trans hexp) rfl
      rw [← heq] at hge
      exact absurd hboth.2 hge.not_gt
    · intro hin
      obtain ⟨hp, t, ht, hexp⟩ := hin
      have hset : toLex (e, p) ∈ s.timers_ := (h.entries e p).mpr ⟨List.not_mem_nil, t, ht, hexp⟩
      refine ⟨⟨List.not_mem_nil, t, ht, hexp⟩, ?_⟩
      by_contra hlt
      apply hp
      exact List.mem_map.mpr ⟨toLex (e, p), OrderedSet.mem_below.mpr ⟨hset, not_le.mp hlt⟩, rfl⟩
  · intro p hp
    obtain ⟨it, hit, rfl⟩ := List.mem_map.mp hp
    obtain ⟨t, ht, -⟩ := h.timer ((hmem it).mp hit).1
    exact ⟨t, ht⟩
  · exact h.addresses
  · exact h.sound

/-- What `handleRead` at the time `now` does: it runs the timers that are due, in the order of
their expirations, leaves all others alone, deletes the one-shot ones and starts the
repeating ones anew. The timers that the callbacks add are there too, and no others. -/
structure Handled (clock : Nat → Int) (now : Int) (calls : Nat → List NewTimer)
    (s s' : TimerQueue) : Prop where
  ran : ∃ ts : List Timer, s'.executed = s.executed ++ ts ∧ ts.Nodup ∧
    ts.Pairwise (fun t u => t.expiration_ ≤ u.expiration_) ∧
    ∀ t, t ∈ ts ↔ ∃ p, s.heap p = some t ∧ t.expiration_ ≤ now
  others : ∀ p t, s.heap p = some t → now < t.expiration_ → s'.heap p = some t
  oneShot : ∀ p t, s.heap p = some t → t.expiration_ ≤ now → t.repeat_ = false → s'.heap p = none
  repeating : ∀ p t, s.heap p = some t → t.expiration_ ≤ now → t.repeat_ = true →
    ∃ n, s'.heap p = some { t with expiration_ := Timer.addTime (clock n) t.delta }
  added : ∀ p t, s.heap p = some t → t.expiration_ ≤ now → ∀ new ∈ calls p,
    ∃ u, s'.heap new.address = some u ∧ Makes new u ∧ u ∈ s'.created
  only : ∀ q u, s'.heap q = some u → (∃ t, s.heap q = some t) ∨
    ∃ p t, s.heap p = some t ∧ t.expiration_ ≤ now ∧ ∃ new ∈ calls p, new.address = q
  created : s.created <+: s'.created

/-- `new` can give the timers that the callbacks of the due timers add the addresses that `calls`
says: they are free, and no two are equal. -/
structure CanAdd (now : Int) (calls : Nat → List NewTimer) (s : TimerQueue) : Prop where
  free : ∀ p t, s.heap p = some t → t.expiration_ ≤ now → ∀ new ∈ calls p,
    s.heap new.address = none ∧ new.address < UINTPTR_MAX
  nodup : ∀ p t, s.heap p = some t → t.expiration_ ≤ now →
    ((calls p).map NewTimer.address).Nodup
  apart : ∀ p q t u, s.heap p = some t → s.heap q = some u → t.expiration_ ≤ now →
    u.expiration_ ≤ now → p ≠ q → ∀ new ∈ calls p, ∀ new' ∈ calls q, new.address ≠ new'.address

/-- The timers of the due entries, read off in the order of the set. -/
theorem due_timers {s : TimerQueue} (h : Tracks [] s) (hlog : Logged [] s) (now : Int)
    {ts : List Timer} (hts : ((s.timers_.below (sentry now)).map fun it => s.heap (ofLex it).2) = ts.map some) :
    ts.Nodup ∧ ts.Pairwise (fun t u => t.expiration_ ≤ u.expiration_) ∧
      ∀ t, t ∈ ts ↔ ∃ p, s.heap p = some t ∧ t.expiration_ ≤ now := by
  obtain ⟨hmem, hnodup⟩ := h.expired now
  have hexp : ts.map Timer.expiration_ = (s.timers_.below (sentry now)).map fun it => (ofLex it).1 := by
    apply List.map_injective_iff.mpr (Option.some_injective Int)
    have hmap := congrArg (List.map (Option.map Timer.expiration_)) hts
    simp only [List.map_map] at hmap ⊢
    refine Eq.trans ?_ (hmap.symm.trans ?_)
    · rfl
    · apply List.map_congr_left
      intro it hit
      obtain ⟨t, ht, hkey⟩ := h.timer ((hmem it).mp hit).1
      simp [ht, hkey]
  refine ⟨?_, ?_, ?_⟩
  · have hheap : (ts.map some).Nodup := by
      rw [← hts]
      apply List.Nodup.map_on
      · intro it hit it' hit' heq
        obtain ⟨t, ht, -⟩ := h.timer ((hmem it).mp hit).1
        have ht' : s.heap (ofLex it').2 = some t := heq.symm.trans ht
        exact h.eq_of_address ((hmem it).mp hit).1 ((hmem it').mp hit').1
          (hlog.distinct _ _ t t ht ht' rfl)
      · exact List.Nodup.of_map _ hnodup
    exact List.Nodup.of_map _ hheap
  · have hsorted : (s.timers_.below (sentry now)).Pairwise (· < ·) := by
      rw [OrderedSet.below_eq_filter]
      exact s.timers_.sorted.filter _
    rw [← List.pairwise_map (R := fun a b : Int => a ≤ b), hexp, List.pairwise_map]
    apply hsorted.imp
    intro a b hab
    exact Prod.Lex.monotone_fst a b hab.le
  · intro t
    have hiff : t ∈ ts ↔ some t ∈ ts.map some := by simp
    rw [hiff, ← hts, List.mem_map]
    constructor
    · intro hin
      obtain ⟨it, hit, ht⟩ := hin
      obtain ⟨hset, hdue⟩ := (hmem it).mp hit
      obtain ⟨u, hu, hkey⟩ := h.timer hset
      rw [hu] at ht
      obtain rfl := Option.some.inj ht
      exact ⟨_, hu, hkey ▸ hdue⟩
    · intro hin
      obtain ⟨p, ht, hdue⟩ := hin
      have hset : toLex (t.expiration_, p) ∈ s.timers_ :=
        (h.entries _ p).mpr ⟨List.not_mem_nil, t, ht, rfl⟩
      exact ⟨_, (hmem _).mpr ⟨hset, hdue⟩, ht⟩

/-- The state of `handleRead` when it runs the first callback. -/
def opened (clock : Nat → Int) (s : TimerQueue) : TimerQueue :=
  { s with
    timers_ := s.timers_.above (sentry (clock s.reads))
    readable := false
    reads := s.reads + 1 }

theorem handleRead_eq (s : TimerQueue) (calls : Nat → List NewTimer) :
    s.handleRead clock calls =
      (runExpired clock calls (s.timers_.below (sentry (clock s.reads))) (s.opened clock)).map
        (reset clock (s.timers_.below (sentry (clock s.reads)))) := rfl

theorem tracks_opened (clock : Nat → Int) {s : TimerQueue} (h : Tracks [] s) :
    Tracks (addressesOf (s.timers_.below (sentry (clock s.reads)))) (s.opened clock) :=
  (tracks_getExpired h (clock s.reads)).congr ⟨rfl, rfl, rfl, rfl, rfl⟩

/-- The expired entries are those of the timers that are due. -/
theorem Tracks.mem_expired {s : TimerQueue} (h : Tracks [] s) (now : Int) {p : Nat} {t : Timer}
    (ht : s.heap p = some t) :
    p ∈ addressesOf (s.timers_.below (sentry now)) ↔ t.expiration_ ≤ now := by
  obtain ⟨hmem, -⟩ := h.expired now
  constructor
  · intro hp
    obtain ⟨it, hit, rfl⟩ := List.mem_map.mp hp
    obtain ⟨hset, hdue⟩ := (hmem it).mp hit
    obtain ⟨v, hv, hkey⟩ := h.timer hset
    rw [ht] at hv
    obtain rfl := Option.some.inj hv
    rw [hkey]
    exact hdue
  · intro hdue
    have hset : toLex (t.expiration_, p) ∈ s.timers_ :=
      (h.entries _ p).mpr ⟨List.not_mem_nil, t, ht, rfl⟩
    exact List.mem_map.mpr ⟨_, (hmem _).mpr ⟨hset, hdue⟩, rfl⟩

/-- An expired entry's timer is live and due. -/
theorem Tracks.due_of_expired {s : TimerQueue} (h : Tracks [] s) {now : Int} {p : Nat}
    (hp : p ∈ addressesOf (s.timers_.below (sentry now))) :
    ∃ t, s.heap p = some t ∧ t.expiration_ ≤ now := by
  obtain ⟨hmem, -⟩ := h.expired now
  obtain ⟨it, hit, rfl⟩ := List.mem_map.mp hp
  obtain ⟨hset, hdue⟩ := (hmem it).mp hit
  obtain ⟨t, ht, hkey⟩ := h.timer hset
  exact ⟨t, ht, hkey ▸ hdue⟩

theorem mem_callsOf {calls : Nat → List NewTimer} {es : List Entry} {new : NewTimer} :
    new ∈ callsOf calls es ↔ ∃ p ∈ addressesOf es, new ∈ calls p := by
  rw [callsOf, List.mem_flatMap, addressesOf]
  simp only [List.mem_map, exists_exists_and_eq_and]

theorem handleRead_spec {s s' : TimerQueue} {calls : Nat → List NewTimer} (h : Tracks [] s)
    (hlog : Logged [] s) (hs : s.handleRead clock calls = some s') :
    Tracks [] s' ∧ Logged [] s' ∧ Handled clock (clock s.reads) calls s s' ∧
      ((∃ it ∈ s.timers_, (ofLex it).1 ≤ clock s.reads) → s'.Armed) := by
  obtain ⟨hmem, hnodup⟩ := h.expired (clock s.reads)
  have hopened := tracks_opened clock h
  have hin {p : Nat} {t : Timer} (ht : s.heap p = some t) := h.mem_expired (clock s.reads) ht
  have hlive {p : Nat} (hp : p ∈ addressesOf (s.timers_.below (sentry (clock s.reads)))) :=
    h.due_of_expired hp
  rw [handleRead_eq] at hs
  generalize hes : s.timers_.below (sentry (clock s.reads)) = es at *
  obtain ⟨u, hu, rfl⟩ := Option.map_eq_some_iff.mp hs
  obtain ⟨htracks, hlogged, hgrow, ts, hts, hexec⟩ := runExpired_spec hopened
    (hlog.congr rfl rfl rfl) (List.nil_subset _) (List.Subset.refl _) hnodup
    (fun _ _ hp => absurd hp List.not_mem_nil) hu
  have hlogged' : Logged (addressesOf es) u := by
    apply hlogged.reorder
    intro p
    simp
  obtain ⟨h1, h2, hexec', hmade, hother, hexp, harmed⟩ := reset_spec htracks hlogged' hnodup
  have hafter : ∀ p t, s.heap p = some t → t.expiration_ ≤ clock s.reads →
      ∃ n, (reset clock es u).heap p = after t (clock n) := by
    intro p t ht hdue
    exact hexp p ((hin ht).mpr hdue) t (hgrow.stays p t ht)
  refine ⟨h1, h2, ⟨⟨ts, hexec'.trans hexec, due_timers h hlog (clock s.reads) ?_⟩, ?_, ?_, ?_, ?_,
    ?_, ?_⟩, ?_⟩
  · rw [hes]
    exact hts
  · intro p t ht hlater
    rw [hother p ((hin ht).not.mpr hlater.not_ge)]
    exact hgrow.stays p t ht
  · intro p t ht hdue hrep
    obtain ⟨n, hn⟩ := hafter p t ht hdue
    rw [hn, after, hrep]
    rfl
  · intro p t ht hdue hrep
    obtain ⟨n, hn⟩ := hafter p t ht hdue
    refine ⟨n, ?_⟩
    rw [hn, after, if_pos hrep, Timer.restart, if_pos hrep]
  · intro p t ht hdue new hnew
    obtain ⟨v, hv, hmakes, hlisted⟩ :=
      hgrow.made new (mem_callsOf.mpr ⟨p, (hin ht).mpr hdue, hnew⟩)
    have hfree := hgrow.free new (mem_callsOf.mpr ⟨p, (hin ht).mpr hdue, hnew⟩)
    have hout : new.address ∉ addressesOf es := by
      intro hexpired
      obtain ⟨w, hw, -⟩ := hlive hexpired
      exact absurd (hfree.symm.trans hw) (by simp)
    exact ⟨v, (hother _ hout).trans hv, hmakes, hmade ▸ hlisted⟩
  · intro q v hv
    by_cases hq : q ∈ addressesOf es
    · obtain ⟨t, ht, -⟩ := hlive hq
      exact Or.inl ⟨t, ht⟩
    · rw [hother q hq] at hv
      rcases hgrow.only q v hv with hold | ⟨new, hnew, heq⟩
      · exact Or.inl ⟨v, hold⟩
      · obtain ⟨p, hp, hcall⟩ := mem_callsOf.mp hnew
        obtain ⟨t, ht, hdue⟩ := hlive hp
        exact Or.inr ⟨p, t, ht, hdue, new, hcall, heq⟩
  · rw [hmade]
    exact hgrow.created
  · intro hdue
    apply harmed
    intro hnil
    obtain ⟨it, hit, hle⟩ := hdue
    have := (hmem it).mpr ⟨hit, hle⟩
    rw [hnil] at this
    cases this

/-- `handleRead` returns where the addresses that its callbacks ask for can be given. -/
theorem handleRead_returns (clock : Nat → Int) {s : TimerQueue} {calls : Nat → List NewTimer}
    (h : Tracks [] s) (hcan : CanAdd (clock s.reads) calls s) :
    ∃ s', s.handleRead clock calls = some s' := by
  obtain ⟨hmem, hnodup⟩ := h.expired (clock s.reads)
  have hlive : ∀ p ∈ addressesOf (s.timers_.below (sentry (clock s.reads))),
      ∃ t, (s.opened clock).heap p = some t := (tracks_opened clock h).live
  have hfresh : (s.opened clock).Fresh (callsOf calls (s.timers_.below (sentry (clock s.reads)))) := by
    constructor
    · rw [callsOf, List.map_flatMap, List.nodup_flatMap]
      constructor
      · intro it hit
        obtain ⟨t, ht, hdue⟩ := h.due_of_expired (List.mem_map_of_mem hit)
        exact hcan.nodup _ t ht hdue
      · apply (List.pairwise_map.mp hnodup).imp_of_mem
        intro it it' hit hit' hne
        obtain ⟨t, ht, hdue⟩ := h.due_of_expired (List.mem_map_of_mem hit)
        obtain ⟨u, hu, hdue'⟩ := h.due_of_expired (List.mem_map_of_mem hit')
        intro a ha ha'
        obtain ⟨new, hnew, rfl⟩ := List.mem_map.mp ha
        obtain ⟨new', hnew', heq⟩ := List.mem_map.mp ha'
        exact hcan.apart _ _ t u ht hu hdue hdue' hne new hnew new' hnew' heq.symm
    · intro new hnew
      obtain ⟨p, hp, hcall⟩ := mem_callsOf.mp hnew
      obtain ⟨t, ht, hdue⟩ := h.due_of_expired hp
      exact hcan.free p t ht hdue new hcall
  obtain ⟨u, hu⟩ := runExpired_returns clock hlive hfresh
  rw [handleRead_eq, hu]
  exact ⟨_, rfl⟩

theorem addTimer_kept {s s' : TimerQueue} {new : NewTimer} (h : Tracks [] s) (hlog : Logged [] s)
    (hs : s.addTimer clock new = some s') : Tracks [] s' ∧ Logged [] s' := by
  obtain ⟨hfree, hmax, hsame⟩ := addTimer_spec hs
  refine ⟨(tracks_withTimer h hfree hmax).congr hsame, ?_⟩
  exact (logged_withTimer hlog hfree List.not_mem_nil rfl).congr hsame.heap hsame.created
    hsame.executed

theorem kept_step {s s' : TimerQueue} {a : TimerAction} (h : Tracks [] s) (hlog : Logged [] s)
    (hs : s.step clock a = some s') : Tracks [] s' ∧ Logged [] s' := by
  cases a with
  | expire =>
    simp only [step] at hs
    split_ifs at hs with harmed
    obtain rfl := Option.some.inj hs
    exact ⟨h.congr ⟨rfl, rfl, rfl, rfl, rfl⟩, hlog.congr rfl rfl rfl⟩
  | addTimer new => exact addTimer_kept h hlog hs
  | handleRead calls =>
    obtain ⟨h1, h2, -⟩ := handleRead_spec h hlog hs
    exact ⟨h1, h2⟩

/-- The set holds no entry of a dead timer, and of each live one exactly one entry, under its
expiration. -/
def Pending (s : TimerQueue) : Prop :=
  (∀ it ∈ s.timers_, ∃ t, s.heap (ofLex it).2 = some t ∧ t.expiration_ = (ofLex it).1) ∧
    ∀ p t, s.heap p = some t → toLex (t.expiration_, p) ∈ s.timers_ ∧
      s.timers_.elems.countP (fun it => (ofLex it).2 = p) = 1

theorem Tracks.pending {s : TimerQueue} (h : Tracks [] s) : s.Pending := by
  refine ⟨fun it hit => h.timer hit, ?_⟩
  intro p t ht
  have hset : toLex (t.expiration_, p) ∈ s.timers_ :=
    (h.entries _ p).mpr ⟨List.not_mem_nil, t, ht, rfl⟩
  refine ⟨hset, ?_⟩
  have hcount : s.timers_.elems.count (toLex (t.expiration_, p)) = 1 :=
    List.count_eq_one_of_mem (s.timers_.sorted.imp ne_of_lt) hset
  rw [← hcount, List.count]
  apply List.countP_congr
  intro it hit
  rw [decide_eq_true_eq, beq_iff_eq]
  constructor
  · intro heq
    exact h.eq_of_address hit hset heq
  · intro heq
    rw [heq]
    rfl

end TimerQueue

end Mymuduo.Timers
