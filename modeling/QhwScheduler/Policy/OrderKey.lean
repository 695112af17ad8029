import QhwScheduler.Policy.DeadlineBoost
import QhwScheduler.Policy.ReadyQueue

/-!
# Order keys

`qhw_order_key.c`: the key list of the ordered policy and the comparison it
stands for.

* `DeadlineSettings`, `deadlineNow` — the boost configuration of a policy with
  the clock it uses.
* `orderConfigParseOptions` — the accepted key lists.
* `orderCompareGroups` — the comparison; `orderCompareLoop_eq_lex` — it is
  lexicographic in the keys, the task id last, so a total preorder.
-/

namespace QhwScheduler

open Foundations
open Std (TransCmp ReflCmp)

/-! ## Deadlines -/

/-- The boost configuration of a policy, and its fixed clock value if it has one. -/
structure DeadlineSettings where
  boost : BoostConfig := deadlineBoostConfigInit
  nowNs : UInt64 := 0
  useStaticNow : Bool := false
  deriving DecidableEq

/-- `qhw_order_now_ns`, also `priority_now_ns`. -/
def deadlineNow (settings : DeadlineSettings) (E : Env) (c : Cursor) : UInt64 × Cursor :=
  if settings.useStaticNow then (settings.nowNs, c) else deadlineBoostNowNs E c

/-- `parse_now_option` for one option. -/
def parseNowOption (settings : DeadlineSettings) (option : Kv) : Option DeadlineSettings :=
  match option.value with
  | .u64 v => some { settings with nowNs := v, useStaticNow := true }
  | _ => none

/-! ## Keys -/

/-- `QHW_SCHED_ORDER_*`. -/
inductive OrderKey where
  | priority
  | sjf
  | ljf
  | fifo
  | roundRobin
  deriving DecidableEq, Repr

/-- `order_key_supported`: the key with this value, if there is one. -/
def OrderKey.ofU64 (value : UInt64) : Option OrderKey :=
  if value = 1 then some .priority
  else if value = 2 then some .sjf
  else if value = 3 then some .ljf
  else if value = 4 then some .fifo
  else if value = 5 then some .roundRobin
  else none

/-- `QHW_ORDER_KEY_MAX`. -/
def orderKeyMax : ℕ := 8

/-- `struct qhw_order_config`. -/
structure OrderConfig where
  keys : List OrderKey
  deadline : DeadlineSettings
  deriving DecidableEq

/-- `qhw_order_config_init`. -/
def orderConfigInit : OrderConfig := ⟨[.priority, .fifo], {}⟩

/-- `order_config_append_key`. -/
def orderConfigAppendKey (config : OrderConfig) (key : UInt64) : Except Rc OrderConfig :=
  match OrderKey.ofU64 key with
  | none => .error .errUnsupported
  | some key =>
    if config.keys.length ≥ orderKeyMax then .error .errUnsupported
    else .ok { config with keys := config.keys ++ [key] }

/-- `parse_order_key`. -/
def parseOrderKey (config : OrderConfig) (option : Kv) : Except Rc OrderConfig :=
  match option.value with
  | .u64 v => orderConfigAppendKey config v
  | _ => .error .errInvalidArg

/-- The loop of `qhw_order_config_parse_options`; the first key option drops the
default keys. -/
def orderConfigParseLoop : OrderConfig → Bool → List Kv → Except Rc OrderConfig
  | config, _, [] => .ok config
  | config, sawOrderKey, option :: rest =>
    if option.key = optOrderKey then
      match parseOrderKey (if sawOrderKey then config else { config with keys := [] }) option with
      | .error rc => .error rc
      | .ok config => orderConfigParseLoop config true rest
    else if option.key = optDeadlineNowNs then
      match parseNowOption config.deadline option with
      | none => .error .errInvalidArg
      | some deadline => orderConfigParseLoop { config with deadline := deadline } sawOrderKey rest
    else orderConfigParseLoop config sawOrderKey rest

/-- `qhw_order_config_parse_options`. -/
def orderConfigParseOptions (config : OrderConfig) (options : KvArray) : Except Rc OrderConfig :=
  match options with
  | none => .error .errInvalidArg
  | some kvs =>
    match deadlineBoostConfigParseOptions config.deadline.boost (some kvs) with
    | none => .error .errInvalidArg
    | some boost =>
      match orderConfigParseLoop { config with deadline := { config.deadline with boost := boost } }
          false kvs with
      | .error rc => .error rc
      | .ok config => if config.keys = [] then .error .errInvalidArg else .ok config

/-- `qhw_order_config_uses_cost`. -/
def orderConfigUsesCost (config : OrderConfig) : Bool :=
  config.keys.any fun key => key = .sjf || key = .ljf

/-- `qhw_order_config_uses_round_robin`. -/
def orderConfigUsesRoundRobin (config : OrderConfig) : Bool :=
  config.keys.any fun key => key = .roundRobin

/-! ## Comparison -/

/-- `compare_i64_desc`. -/
def compareI64Desc (left right : Int64) : Ordering :=
  if left = right then .eq else if left > right then .lt else .gt

/-- `compare_u64_asc`, also on counters. -/
def compareAsc {α : Type} [DecidableEq α] [LT α] [DecidableLT α] (left right : α) : Ordering :=
  if left = right then .eq else if left < right then .lt else .gt

/-- A task with the ticket of its group. -/
structure Ticketed where
  task : ReadyTask
  ticket : ℕ

/-- The comparison one key stands for. -/
def OrderKey.compare (key : OrderKey) (left right : Ticketed) : Ordering :=
  match key with
  | .priority => compareI64Desc left.task.effectivePriority right.task.effectivePriority
  | .sjf => compareAsc left.task.estimatedCost right.task.estimatedCost
  | .ljf => compareAsc right.task.estimatedCost left.task.estimatedCost
  | .roundRobin => compareAsc left.ticket right.ticket
  | .fifo => compareAsc left.task.seq right.task.seq

/-- The loop of `qhw_order_compare_groups` over the keys that are left. -/
def orderCompareLoop : List OrderKey → Ticketed → Ticketed → Ordering
  | [], left, right => compareAsc left.task.desc.taskId right.task.desc.taskId
  | key :: rest, left, right =>
    match key.compare left right with
    | .eq => orderCompareLoop rest left right
    | o => o

/-- `qhw_order_compare_groups`. -/
def orderCompareGroups (config : OrderConfig) (left right : ReadyTask)
    (leftTicket rightTicket : ℕ) : Ordering :=
  orderCompareLoop config.keys ⟨left, leftTicket⟩ ⟨right, rightTicket⟩

/-- `qhw_order_compare`. -/
def orderCompare (config : OrderConfig) (left right : ReadyTask) : Ordering :=
  orderCompareGroups config left right 0 0

/-! ## The comparison is a total preorder -/

theorem compareAsc_nat (a b : ℕ) : compareAsc a b = compare a b := by
  unfold compareAsc
  split
  · next h => rw [h, compare_eq_iff_eq.2 rfl]
  · next hne =>
    split
    · next hlt => exact (Nat.compare_eq_lt.2 hlt).symm
    · next hge => exact (Nat.compare_eq_gt.2 (by omega)).symm

theorem compareAsc_u64 (a b : UInt64) : compareAsc a b = compareAsc a.toNat b.toNat := by
  simp only [compareAsc, UInt64.toNat_inj, UInt64.lt_iff_toNat_lt]

theorem compareI64Desc_eq (a b : Int64) : compareI64Desc a b = compare b.toInt a.toInt := by
  unfold compareI64Desc
  split
  · next h => rw [h, compare_eq_iff_eq.2 rfl]
  · next hne =>
    have hne' : a.toInt ≠ b.toInt := fun h => hne (Int64.toInt_inj.1 h)
    split
    · next hgt => exact (Int.compare_eq_lt.2 (Int64.lt_iff_toInt_lt.1 hgt)).symm
    · next hng =>
      have : ¬ b.toInt < a.toInt := fun h => hng (Int64.lt_iff_toInt_lt.2 h)
      exact (Int.compare_eq_gt.2 (by omega)).symm

instance compareAsc_nat_transCmp : TransCmp (compareAsc (α := ℕ)) := by
  have : (compareAsc (α := ℕ)) = compare := by
    funext a b
    exact compareAsc_nat a b
  rw [this]
  infer_instance

instance compareAsc_u64_transCmp : TransCmp (compareAsc (α := UInt64)) := by
  have : (compareAsc (α := UInt64)) = fun a b => compareAsc a.toNat b.toNat := by
    funext a b
    exact compareAsc_u64 a b
  rw [this]
  exact transCmp_comap compareAsc UInt64.toNat

theorem transCmp_flip {α : Type} (cmp : α → α → Ordering) [TransCmp cmp] :
    TransCmp fun a b => cmp b a where
  eq_swap := Std.OrientedCmp.eq_swap
  isLE_trans h₁ h₂ := Std.TransCmp.isLE_trans h₂ h₁

instance compareI64Desc_transCmp : TransCmp compareI64Desc := by
  have : compareI64Desc = fun a b => compare b.toInt a.toInt := by
    funext a b
    exact compareI64Desc_eq a b
  rw [this]
  have := transCmp_flip (α := ℤ) compare
  exact transCmp_comap (fun a b : ℤ => compare b a) Int64.toInt

instance OrderKey.compare_transCmp (key : OrderKey) : TransCmp key.compare := by
  cases key with
  | priority => exact transCmp_comap compareI64Desc fun t : Ticketed => t.task.effectivePriority
  | sjf => exact transCmp_comap compareAsc fun t : Ticketed => t.task.estimatedCost
  | ljf =>
    have := transCmp_flip (compareAsc (α := UInt64))
    exact transCmp_comap (fun a b : UInt64 => compareAsc b a) fun t : Ticketed => t.task.estimatedCost
  | fifo => exact transCmp_comap compareAsc fun t : Ticketed => t.task.seq
  | roundRobin => exact transCmp_comap compareAsc fun t : Ticketed => t.ticket

/-- The last resort: the task id. -/
def compareTaskIds (left right : Ticketed) : Ordering :=
  compareAsc left.task.desc.taskId right.task.desc.taskId

instance compareTaskIds_transCmp : TransCmp compareTaskIds :=
  transCmp_comap compareAsc fun t : Ticketed => t.task.desc.taskId

theorem orderCompareLoop_eq_lex (keys : List OrderKey) :
    orderCompareLoop keys = lexCompare (keys.map OrderKey.compare ++ [compareTaskIds]) := by
  induction keys with
  | nil =>
    funext a b
    rw [List.map_nil, List.nil_append, lexCompare_cons]
    show compareTaskIds a b = (compareTaskIds a b).then .eq
    cases compareTaskIds a b <;> rfl
  | cons key rest ih =>
    funext a b
    rw [List.map_cons, List.cons_append, lexCompare_cons, ← ih]
    show (match key.compare a b with | .eq => orderCompareLoop rest a b | o => o) = _
    cases key.compare a b <;> rfl

/-- Tasks that tie to the end have one id. -/
theorem taskId_eq_of_orderCompareLoop {keys : List OrderKey} {a b : Ticketed}
    (h : orderCompareLoop keys a b = .eq) : a.task.desc.taskId = b.task.desc.taskId := by
  rw [orderCompareLoop_eq_lex, lexCompare_eq_iff] at h
  have hids : compareTaskIds a b = .eq := h _ (List.mem_append_right _ (List.mem_singleton_self _))
  by_contra hne
  simp only [compareTaskIds, compareAsc, if_neg hne] at hids
  split at hids <;> simp at hids

instance orderCompareLoop_transCmp (keys : List OrderKey) : TransCmp (orderCompareLoop keys) := by
  rw [orderCompareLoop_eq_lex]
  refine lexCompare_transCmp _ ?_
  intro c hc
  rcases List.mem_append.1 hc with hc | hc
  · obtain ⟨key, -, rfl⟩ := List.mem_map.1 hc
    infer_instance
  · rw [List.mem_singleton.1 hc]
    infer_instance

instance orderCompare_transCmp (config : OrderConfig) : TransCmp (orderCompare config) :=
  transCmp_comap (orderCompareLoop config.keys) fun t : ReadyTask => (⟨t, 0⟩ : Ticketed)

/-! ## What the comparison reads -/

/-- The two items compare alike: they differ in the base priority and the
refresh time only. -/
structure SameOrder (t t' : ReadyTask) : Prop where
  desc : t'.desc = t.desc
  effectivePriority : t'.effectivePriority = t.effectivePriority
  estimatedCost : t'.estimatedCost = t.estimatedCost
  seq : t'.seq = t.seq

theorem SameOrder.refl (t : ReadyTask) : SameOrder t t := ⟨rfl, rfl, rfl, rfl⟩

/-- A comparison that does not read the base priority and the refresh time. -/
def ReadyCompare.Reads (cmp : ReadyCompare) : Prop :=
  ∀ a a' b b', SameOrder a a' → SameOrder b b' → cmp a b = cmp a' b'

theorem orderCompareLoop_reads (keys : List OrderKey) {a a' b b' : ReadyTask} (ta tb : ℕ)
    (ha : SameOrder a a') (hb : SameOrder b b') :
    orderCompareLoop keys ⟨a, ta⟩ ⟨b, tb⟩ = orderCompareLoop keys ⟨a', ta⟩ ⟨b', tb⟩ := by
  induction keys with
  | nil => simp [orderCompareLoop, ha.desc, hb.desc]
  | cons key rest ih =>
    have hkey : key.compare ⟨a, ta⟩ ⟨b, tb⟩ = key.compare ⟨a', ta⟩ ⟨b', tb⟩ := by
      cases key <;> simp [OrderKey.compare, ha.effectivePriority, hb.effectivePriority,
        ha.estimatedCost, hb.estimatedCost, ha.seq, hb.seq]
    rw [orderCompareLoop, orderCompareLoop, hkey, ih]

theorem orderCompare_reads (config : OrderConfig) : ReadyCompare.Reads (orderCompare config) :=
  fun _ _ _ _ ha hb => orderCompareLoop_reads config.keys 0 0 ha hb

/-! ## Ties before the round-robin key -/

/-- The keys before the first round-robin key. -/
def OrderConfig.keysBeforeRoundRobin (config : OrderConfig) : List OrderKey :=
  config.keys.takeWhile (· ≠ .roundRobin)

/-- Two tasks that the keys before the first round-robin key do not tell apart. -/
def OrderConfig.TiesBeforeRoundRobin (config : OrderConfig) (a b : ReadyTask) : Prop :=
  ∀ key ∈ config.keysBeforeRoundRobin, key.compare ⟨a, 0⟩ ⟨b, 0⟩ = .eq

/-- The other keys do not read the tickets. -/
theorem OrderKey.compare_ticket {key : OrderKey} (hkey : key ≠ .roundRobin) (a b : Ticketed) :
    key.compare a b = key.compare ⟨a.task, 0⟩ ⟨b.task, 0⟩ := by
  cases key with
  | roundRobin => exact absurd rfl hkey
  | _ => rfl

/-- After such a tie the larger ticket loses. -/
theorem orderCompareLoop_tied {keys : List OrderKey} (hrr : OrderKey.roundRobin ∈ keys)
    {a b : Ticketed}
    (hties : ∀ key ∈ keys.takeWhile (· ≠ .roundRobin), key.compare ⟨a.task, 0⟩ ⟨b.task, 0⟩ = .eq)
    (hlt : b.ticket < a.ticket) : orderCompareLoop keys a b = .gt := by
  induction keys with
  | nil => simp at hrr
  | cons key rest ih =>
    by_cases hkey : key = .roundRobin
    · rw [hkey, orderCompareLoop, OrderKey.compare, compareAsc, if_neg (by omega), if_neg (by omega)]
    · rw [List.takeWhile_cons_of_pos (by simpa using hkey), List.forall_mem_cons] at hties
      have hrest := ih ((List.mem_cons.1 hrr).resolve_left (Ne.symm hkey)) hties.2
      rw [orderCompareLoop, OrderKey.compare_ticket hkey, hties.1, hrest]

/-- With equal tickets they do not count either. -/
theorem orderCompareLoop_same_ticket (keys : List OrderKey) (a b : ReadyTask) (t : ℕ) :
    orderCompareLoop keys ⟨a, t⟩ ⟨b, t⟩ = orderCompareLoop keys ⟨a, 0⟩ ⟨b, 0⟩ := by
  induction keys with
  | nil => rfl
  | cons key rest ih =>
    have hkey : key.compare ⟨a, t⟩ ⟨b, t⟩ = key.compare ⟨a, 0⟩ ⟨b, 0⟩ := by
      cases key <;> simp [OrderKey.compare, compareAsc]
    rw [orderCompareLoop, orderCompareLoop, hkey, ih]

/-! ## Accepted configurations -/

theorem deadlineBoostConfigParseOptions_thresholds {config config' : BoostConfig}
    {options : KvArray} (h : deadlineBoostConfigParseOptions config options = some config') :
    config'.thresholdsRejected = false := by
  unfold deadlineBoostConfigParseOptions at h
  split at h
  · simp at h
  · split at h
    · simp at h
    · split at h
      · simp at h
      · next hrej =>
        rw [← Option.some.inj h]
        simpa using hrej

theorem parseOrderKey_deadline {config config' : OrderConfig} {option : Kv}
    (h : parseOrderKey config option = .ok config') : config'.deadline = config.deadline := by
  unfold parseOrderKey at h
  split at h
  · unfold orderConfigAppendKey at h
    split at h
    · simp at h
    · split at h
      · simp at h
      · simp only [Except.ok.injEq] at h
        rw [← h]
  · simp at h

theorem orderConfigParseLoop_boost {config config' : OrderConfig} {saw : Bool} {kvs : List Kv}
    (h : orderConfigParseLoop config saw kvs = .ok config') :
    config'.deadline.boost = config.deadline.boost := by
  induction kvs generalizing config saw with
  | nil =>
    simp only [orderConfigParseLoop, Except.ok.injEq] at h
    rw [h]
  | cons option rest ih =>
    unfold orderConfigParseLoop at h
    split at h
    · split at h
      · simp at h
      · next config₁ hparse =>
        rw [ih h, parseOrderKey_deadline hparse]
        cases saw <;> rfl
    · split at h
      · split at h
        · simp at h
        · next deadline hparse =>
          rw [ih h]
          unfold parseNowOption at hparse
          split at hparse
          · rw [← Option.some.inj hparse]
          · simp at hparse
      · exact ih h

/-- The thresholds of an accepted configuration are in order. -/
theorem orderConfigParseOptions_thresholds {config config' : OrderConfig} {options : KvArray}
    (h : orderConfigParseOptions config options = .ok config') :
    config'.deadline.boost.thresholdsRejected = false := by
  unfold orderConfigParseOptions at h
  split at h
  · simp at h
  · split at h
    · simp at h
    · next boost hboost =>
      split at h
      · simp at h
      · next config₁ hloop =>
        split at h
        · simp at h
        · simp only [Except.ok.injEq] at h
          rw [← h, orderConfigParseLoop_boost hloop]
          exact deadlineBoostConfigParseOptions_thresholds hboost

end QhwScheduler
