import TmkDcl.Processor.Objects

/-!
# The life of an object

The names that the head has sent are the created ones in their order, without the one that is still being
filled, and behind them empty ones once the collector has stopped. The last module frees what has come
through in the same order. So the segment holds the created names behind the freed ones, and a name
under way is one of them.
-/

namespace TmkDcl.Processor

open Pipeline (Config Chain Chunk)
open Storage (LocalTime generateNewObjectName)

/-! ### Names -/

/-- The names that jobs carry. -/
def names (l : List (ℕ × Chunk)) : List Bytes := l.map fun y => cString y.2

theorem names_append (l l' : List (ℕ × Chunk)) : names (l ++ l') = names l ++ names l' :=
  List.map_append

theorem names_mono {l l' : List (ℕ × Chunk)} (h : l <+: l') : names l <+: names l' := by
  obtain ⟨t, rfl⟩ := h
  exact ⟨names t, (names_append l t).symm⟩

theorem cString_strcpy {dst src : Bytes} (h : 0 ∉ src) : cString (strcpy dst src) = src := by
  rw [strcpy, storeAt, List.take_zero, List.nil_append, List.append_assoc]
  exact (cString_append _).trans (cString_eq_self.mpr h)

theorem digits_ne_zero (n : ℕ) : 0 ∉ Storage.digits n := by
  intro hm
  obtain ⟨c, hc, hz⟩ := List.mem_map.mp hm
  have hdigit := Nat.isDigit_of_mem_toDigits (by decide) (by decide) hc
  rw [Char.isDigit, Bool.and_eq_true, decide_eq_true_iff, decide_eq_true_iff] at hdigit
  have hlow : 48 ≤ c.toNat := hdigit.1
  have hhigh : c.toNat ≤ 57 := hdigit.2
  have hval : c.toNat % 256 = 0 := congrArg UInt8.toNat hz
  omega

theorem padded_ne_zero (width : ℕ) (n : ℤ) : 0 ∉ Storage.padded width n := by
  have hsign : 0 ∉ Storage.sign n := by
    unfold Storage.sign
    split <;> decide
  simp [Storage.padded, hsign, digits_ne_zero]

/-- A generated name fits with its zero byte into 41 bytes. -/
theorem generateNewObjectName_length (tm : LocalTime) : (generateNewObjectName tm).length ≤ 40 := by
  have hobj : (literal "object_").length = 7 := by decide
  have hpost : (Storage.generateDtPostfix tm).length ≤ 33 := List.length_take_le _ _
  rw [generateNewObjectName, Storage.snprintf]
  refine (List.length_take_le' _ _).trans ?_
  rw [List.length_append, hobj]
  omega

/-- A generated name is a string and not empty. -/
theorem generateNewObjectName_name (tm : LocalTime) : 0 ∉ generateNewObjectName tm ∧
    generateNewObjectName tm ≠ [] ∧ (generateNewObjectName tm).length ≤ 40 := by
  have h1 : 0 ∉ literal "-" ∧ 0 ∉ literal "_" ∧ 0 ∉ literal "." ∧ 0 ∉ literal "object_" := by decide
  refine ⟨?_, ?_, generateNewObjectName_length tm⟩
  · intro hm
    have hpost := List.mem_of_mem_take hm
    rcases List.mem_append.mp hpost with hobj | hpost
    · exact h1.2.2.2 hobj
    · have htext := List.mem_of_mem_take hpost
      simp [h1, padded_ne_zero] at htext
  · have hobj : literal "object_" = 111 :: literal "bject_" := by decide
    rw [generateNewObjectName, Storage.snprintf, hobj]
    exact List.cons_ne_nil _ _

theorem prefix_of_append_replicate {α : Type*} {l w : List α} {a d : α} {e : ℕ} (hd : d ≠ a)
    (h : l ++ [d] <+: w ++ List.replicate e a) : l ++ [d] <+: w := by
  induction e with
  | zero => simpa using h
  | succ e ih =>
    rw [List.replicate_succ', ← List.append_assoc] at h
    rcases List.prefix_concat_iff.mp h with heq | hlt
    · exact absurd (List.append_inj_right' heq rfl) (by simpa using hd)
    · exact ih hlt

/-- Without the fill behind a list, what has come through of both is what has come through of the list. -/
theorem filter_eq_take {α : Type*} [DecidableEq α] {l w : List α} {a : α} {e : ℕ} (ha : a ∉ w)
    (h : l <+: w ++ List.replicate e a) : l.filter (· ≠ a) = w.take l.length := by
  have hkeep : ∀ n, (w.take n).filter (· ≠ a) = w.take n := fun n => by
    refine List.filter_eq_self.mpr fun b hb => decide_eq_true fun hba => ha ?_
    exact hba ▸ List.mem_of_mem_take hb
  have hfill : ∀ n, ((List.replicate e a).take n).filter (· ≠ a) = [] := fun n => by
    refine List.filter_eq_nil_iff.mpr fun b hb => ?_
    simp [(List.mem_replicate.mp (List.mem_of_mem_take hb)).2]
  conv_lhs => rw [List.prefix_iff_eq_take.mp h, List.take_append, List.filter_append, hkeep, hfill]
  rw [List.append_nil]

/-- What stands behind the first part of a list is in the second. -/
theorem mem_of_prefix_append {α : Type*} {l l₁ l₂ : List α} {d : α} (h : l ++ [d] <+: l₁ ++ l₂)
    (hle : l₁.length ≤ l.length) : d ∈ l₂ := by
  obtain ⟨m, rfl⟩ := List.prefix_of_prefix_length_le (List.prefix_append l₁ l₂)
    ((List.prefix_append l [d]).trans h) hle
  rw [List.append_assoc, List.prefix_append_right_inj] at h
  exact h.subset (by simp)

/-! ### The invariant -/

/-- The head's action has written to its slot, or it is about to return without. -/
def FirstPc.past : FirstPc → Bool
  | .checkExit | .copy | .overrun => false
  | _ => true

/-- `w` are the created names that the head has written to slots. -/
def Written (first : FirstPc) (data : Bytes) (w created : List Bytes) : Prop :=
  match first with
  | .checkExit | .copy | .overrun | .ret => created = w ++ [data]
  | .create => created = w ∧ w.getLast? = some data
  | .find objName | .publish objName => created = w ++ [objName] ∧ w.getLast? = some data

section Invariant

variable {cfg : Config} {ch : Chain cfg} (p : Programs cfg ch)

/-- `last_action` has freed the object of its job. -/
def State.past (x : State) (i : ℕ) : Bool := x.action i = .ret

structure ObjectInv (x : State) : Prop where
  split : x.created = x.freed ++ x.segment
  nodup : x.segment.Nodup
  text : ∀ n ∈ x.created, 0 ∉ n ∧ n ≠ [] ∧ n.length ≤ 40
  idle : ∀ i, i ≠ ch.head → (x.pl.child i).pc ≠ .action → x.action i = .find
  freed : x.freed = (names (x.pl.passed p.last (x.past p.last))).filter (· ≠ [])
  head_idle : (x.pl.child ch.head).pc ≠ .action → x.first = .checkExit
  fresh : (x.pl.child ch.head).pc = .action → x.first.past = false →
    (x.pl.child ch.head).wrote = false
  sent : ∃ w e, names (x.pl.passed ch.head x.first.past) = w ++ List.replicate e [] ∧
    Written x.first x.data w x.created ∧
    (0 < e → x.exitFlag = true ∧ (x.first = .checkExit ∨ x.first = .ret))
  overrun : x.first = .overrun → cfg.map.dataSize ≤ x.data.length

variable {p} {x x' : State} {i : ℕ}

theorem Programs.last_ne_head (p : Programs cfg ch) : p.last ≠ ch.head := by
  intro he
  have hm := p.method_last
  rw [he, ch.method_head] at hm
  cases hm

theorem Programs.head_before (p : Programs cfg ch) : ch.pos ch.head < ch.pos p.last := by
  obtain ⟨j, hn⟩ := ch.exists_pred (Pipeline.lt_of_method p.method_last) p.last_ne_head
  rw [ch.pos_head, ch.pos_next hn]
  omega

theorem Written.prefix {first : FirstPc} {data : Bytes} {w created : List Bytes}
    (h : Written first data w created) : w <+: created := by
  unfold Written at h
  split at h
  · exact ⟨_, h.symm⟩
  · exact ⟨_, h.symm⟩
  · exact ⟨_, h.symm⟩
  · exact ⟨_, h.symm⟩
  · exact ⟨[], by rw [h.1, List.append_nil]⟩
  · exact ⟨_, h.1.symm⟩
  · exact ⟨_, h.1.symm⟩

/-- What a module behind the head works on is a name that the head has sent, at its place. -/
theorem ObjectInv.at_work (ho : ObjectInv p x)
    (hr : (Pipeline.sys cfg).Reach (Pipeline.carries ch.head) x.pl)
    (hm : cfg.method i = some .processThread) (hc : (x.pl.child i).pc = .action) :
    ∃ w e, names (x.pl.done i) ++ [slotName x.pl i] <+: w ++ List.replicate e [] ∧
      w <+: x.created ∧ (0 < e → x.exitFlag = true) := by
  have hi := Pipeline.lt_of_method hm
  have hne : i ≠ ch.head := by
    rintro rfl
    rw [ch.method_head] at hm
    cases hm
  obtain ⟨j, hn⟩ := ch.exists_pred hi hne
  obtain ⟨hwait, -, -, hoffs⟩ := ((Pipeline.reach_inv ch hr).job i).in_action hc
  have hcarry := Pipeline.carryInv ch hr hm hne
  have htaken := Pipeline.taken_prefix_done ch hr hn ch.head_lt (by rw [ch.pos_head]; omega)
  obtain ⟨w, e, hsent, hw, he⟩ := ho.sent
  refine ⟨w, e, ?_, hw.prefix, fun hpos => (he hpos).1⟩
  have hdone : x.pl.done ch.head <+: x.pl.passed ch.head x.first.past := List.prefix_append _ _
  rw [Pipeline.CarryInv, Pipeline.jobInWork, if_pos (by simp [Pipeline.Thread.working, hwait])]
    at hcarry
  rw [hcarry] at htaken
  have hnames := names_mono (htaken.trans hdone)
  rwa [hsent, names_append, names, names, List.map_singleton, ← hoffs] at hnames

theorem ObjectInv.written_ne_nil (ho : ObjectInv p x) {w : List Bytes} (hw : w <+: x.created) : [] ∉ w :=
  fun hm => (ho.text _ (hw.subset hm)).2.1 rfl

/-- The last module frees the first object of the segment, or its job has no name. -/
theorem ObjectInv.last_work (ho : ObjectInv p x)
    (hr : (Pipeline.sys cfg).Reach (Pipeline.carries ch.head) x.pl)
    (hc : (x.pl.child p.last).pc = .action) (hu : x.action p.last = .use) :
    slotName x.pl p.last = [] ∨ ∃ t, x.segment = slotName x.pl p.last :: t := by
  by_cases hnil : slotName x.pl p.last = []
  · exact Or.inl hnil
  have hfreed := ho.freed
  rw [State.past, hu, decide_eq_false (by simp),
    (Pipeline.passed_action ((Pipeline.reach_inv ch hr).job p.last) hc).1] at hfreed
  obtain ⟨w, e, hpre, hw, -⟩ := ho.at_work hr p.method_last hc
  have hcreated := (prefix_of_append_replicate hnil hpre).trans hw
  have hkeep : (names (x.pl.done p.last)).filter (· ≠ []) = names (x.pl.done p.last) := by
    refine List.filter_eq_self.mpr fun n hn => decide_eq_true fun he => ?_
    exact ho.written_ne_nil hcreated (he ▸ List.mem_append_left _ hn)
  rw [ho.split, hfreed, hkeep, List.prefix_append_right_inj] at hcreated
  obtain ⟨t, ht⟩ := hcreated
  exact Or.inr ⟨t, ht.symm⟩

/-- Outside the actions a child leaves no action, and it comes to one with nothing written. -/
theorem outside_child {s s' : Pipeline.State} {a : Pipeline.Label} (hi : Pipeline.Inv cfg s)
    (h : Pipeline.Move cfg s a s') (ha : outside a = true) (hact : cfg.action i = true) :
    s'.child i = s.child i ∨ (s.child i).pc ≠ .action ∧
      ((s'.child i).pc = .action → (s'.child i).wrote = false) := by
  cases h with
  | @thread k _ hk h =>
    by_cases hik : i = k
    · subst hik
      rcases h.child with hc | ⟨hpc, -, -, hc⟩
      · exact Or.inl hc
      · refine Or.inr ⟨?_, by simp [hc]⟩
        rw [(hi.job i).absent (by simp [hpc, Pipeline.Pc.starting])]
        simp
    · exact Or.inl (h.child_of_ne hik)
  | @child k _ _ h =>
    by_cases hik : i = k
    · subst hik
      cases h
      case write | ret => cases ha
      case noAction hc => simp [hact] at hc
      case post exitFlag hpc => exact Or.inr ⟨by simp [hpc], by cases exitFlag <;> simp⟩
      all_goals exact Or.inr ⟨by simp [*], by simp⟩
    · exact Or.inl (h.child_of_ne hik)
  | main h => exact Or.inl (by rw [h.child])
  | destroy h => exact Or.inl (by cases h <;> rfl)
  | raise => exact Or.inl rfl

theorem ObjectInv.pipeline (ho : ObjectInv p x)
    (hr : (Pipeline.sys cfg).Reach (Pipeline.carries ch.head) x.pl) {a : Pipeline.Label}
    {pl : Pipeline.State} (ha : outside a = true) (h : Pipeline.step cfg x.pl a = some pl) :
    ObjectInv p { x with pl := pl } := by
  have hi := Pipeline.reach_inv ch hr
  have hmove := Pipeline.step_move ch h
  have hwrite : ∀ i d, a ≠ .write i d := by
    rintro i d rfl
    cases ha
  have hret : ∀ i status, a ≠ .ret i status := by
    rintro i status rfl
    cases ha
  have hpassed : ∀ i past, i < cfg.modulesCnt → ((x.pl.child i).pc = .readCmd → past = false) →
      pl.passed i past = x.pl.passed i past := fun i past hlt hp =>
    hmove.passed _ ch hi (Pipeline.startInv hr) (Pipeline.slotInv ch hr) hlt (p.action i) (hwrite i)
      (hret i) hp
  have hlast := Pipeline.lt_of_method p.method_last
  have hlidle : (x.pl.child p.last).pc = .readCmd → x.action p.last = .find := fun hc =>
    ho.idle _ p.last_ne_head (by simp [hc])
  have hhidle : (x.pl.child ch.head).pc = .readCmd → x.first = .checkExit := fun hc =>
    ho.head_idle (by simp [hc])
  have hchild := fun i => outside_child (i := i) hi hmove ha (p.action i)
  refine ⟨ho.split, ho.nodup, ho.text, fun i hne hc => ?_, ?_, fun hc => ?_, fun hc hp => ?_, ?_,
    ho.overrun⟩
  · rcases hchild i with he | ⟨he, -⟩
    · exact ho.idle i hne (he ▸ hc)
    · exact ho.idle i hne he
  · have hf := ho.freed
    rw [← hpassed p.last _ hlast fun hc => by simp [State.past, hlidle hc]] at hf
    exact hf
  · rcases hchild ch.head with he | ⟨he, -⟩
    · exact ho.head_idle (he ▸ hc)
    · exact ho.head_idle he
  · rcases hchild ch.head with he | ⟨-, hnew⟩
    · dsimp only at hc ⊢
      rw [he] at hc ⊢
      exact ho.fresh hc hp
    · exact hnew hc
  · have hs := ho.sent
    rw [← hpassed ch.head x.first.past ch.head_lt fun hc => by simp [hhidle hc, FirstPc.past]] at hs
    exact hs

theorem ObjectInv.checkExit (ho : ObjectInv p x)
    (hr : (Pipeline.sys cfg).Reach (Pipeline.carries ch.head) x.pl)
    (hc : (x.pl.child ch.head).pc = .action) (hf : x.first = .checkExit) :
    ObjectInv p { x with first := if x.exitFlag then .ret else .copy } := by
  refine ⟨ho.split, ho.nodup, ho.text, ho.idle, ho.freed, fun hn => absurd hc hn,
    fun _ _ => ho.fresh hc (by simp [hf, FirstPc.past]), ?_, fun ho => ?_⟩
  swap
  · dsimp only at ho
    split at ho <;> cases ho
  obtain ⟨w, e, hsent, hw, he⟩ := ho.sent
  rw [hf] at hsent hw
  cases hx : x.exitFlag with
  | false =>
    refine ⟨w, e, hsent, hw, fun hpos => ?_⟩
    rw [hx] at he
    exact absurd (he hpos).1 (by simp)
  | true =>
    -- the action returns without a write, and the slot is empty
    have hwrote := ho.fresh hc (by simp [hf, FirstPc.past])
    obtain ⟨hwait, -⟩ := ((Pipeline.reach_inv ch hr).job ch.head).in_action hc
    have hempty := (Pipeline.slotsEmpty ch (Pipeline.reach_cleanDrops ch hr)).taken ch.head
      ch.method_head (Or.inr (Or.inr (Or.inr ⟨hwait, Or.inr (Or.inr hwrote)⟩)))
    have hname : cString (x.pl.chunk (x.pl.thr ch.head).dataoffset) = [] := by
      cases hd : x.pl.chunk (x.pl.thr ch.head).dataoffset with
      | nil => rfl
      | cons b d =>
        rw [hd] at hempty
        obtain rfl := Option.some_inj.mp hempty
        rfl
    obtain ⟨hfalse, htrue⟩ := Pipeline.passed_action ((Pipeline.reach_inv ch hr).job ch.head) hc
    refine ⟨w, e + 1, ?_, hw, fun _ => ⟨rfl, Or.inr rfl⟩⟩
    show names (x.pl.passed ch.head true) = _
    rw [htrue, ← hfalse, names_append, names, names, List.map_singleton, hname]
    change names (x.pl.passed ch.head false) = _ at hsent
    rw [names] at hsent
    rw [hsent, List.replicate_succ', List.append_assoc]

theorem ObjectInv.overruns (ho : ObjectInv p x) (hc : (x.pl.child ch.head).pc = .action)
    (hf : x.first = .copy) (hn : cfg.map.dataSize ≤ x.data.length) :
    ObjectInv p { x with first := .overrun } := by
  obtain ⟨w, e, hsent, hw, he⟩ := ho.sent
  rw [hf] at hsent hw he
  refine ⟨ho.split, ho.nodup, ho.text, ho.idle, ho.freed, fun hn => absurd hc hn,
    fun _ _ => ho.fresh hc (by simp [hf, FirstPc.past]), ⟨w, e, hsent, hw, fun hpos => ?_⟩, fun _ => hn⟩
  simpa using (he hpos).2

theorem ObjectInv.copy (ho : ObjectInv p x)
    (hr : (Pipeline.sys cfg).Reach (Pipeline.carries ch.head) x.pl) {pl : Pipeline.State}
    (hc : (x.pl.child ch.head).pc = .action) (hf : x.first = .copy)
    (h : Pipeline.step cfg x.pl (.write ch.head
      (strcpy (x.pl.chunk (x.pl.proc ch.head).cmdOffs) x.data)) = some pl) :
    ObjectInv p { x with pl := pl, first := .create } := by
  have hi := Pipeline.reach_inv ch hr
  have hwrite := Pipeline.actionWrite_move h
  have hpassed := fun past => (Pipeline.Move.child hwrite).passed past ch hi
    (Pipeline.startInv hr) (Pipeline.slotInv ch hr) (Pipeline.lt_of_method p.method_last)
    (p.action p.last) (fun d he => p.last_ne_head (Pipeline.Label.write.inj he).1.symm) (by simp)
  have hother : ∀ i, i ≠ ch.head → pl.child i = x.pl.child i := fun i hne => hwrite.child_of_ne hne
  have hlidle : (x.pl.child p.last).pc = .readCmd → x.action p.last = .find := fun hc =>
    ho.idle _ p.last_ne_head (by simp [hc])
  refine ⟨ho.split, ho.nodup, ho.text, fun i hne hn => ho.idle i hne (hother i hne ▸ hn), ?_,
    fun hn => ?_, fun _ hp => (by cases hp), ?_, fun ho => (by cases ho)⟩
  · have hfreed := ho.freed
    rwa [← hpassed _ fun hc => by simp [State.past, hlidle hc]] at hfreed
  · have hstay : (pl.child ch.head).pc = .action := by
      cases hwrite
      simpa using hc
    exact absurd hstay hn
  · obtain ⟨w, e, hsent, hw, he⟩ := ho.sent
    rw [hf] at hsent hw he
    have hzero : e = 0 := by
      by_contra hpos
      simpa using (he (Nat.pos_of_ne_zero hpos)).2
    have hdata : 0 ∉ x.data := (ho.text x.data (by rw [hw]; simp)).1
    refine ⟨w ++ [x.data], 0, ?_, ⟨hw, by simp⟩, fun hpos => absurd hpos (lt_irrefl 0)⟩
    show names (pl.passed ch.head true) = _
    rw [hwrite.passed_write (hi.job ch.head), names_append]
    change names (x.pl.passed ch.head false) = _ at hsent
    rw [hsent, hzero]
    simp [names, cString_strcpy hdata]

theorem ObjectInv.create (ho : ObjectInv p x) (hc : (x.pl.child ch.head).pc = .action)
    (hf : x.first = .create) (tm : LocalTime) (hn : generateNewObjectName tm ∉ x.segment) :
    ObjectInv p { x with
      segment := x.segment ++ [generateNewObjectName tm]
      created := x.created ++ [generateNewObjectName tm]
      first := .find (generateNewObjectName tm) } := by
  obtain ⟨w, e, hsent, hw, he⟩ := ho.sent
  rw [hf] at hsent hw he
  refine ⟨?_, ?_, fun n hm => ?_, ho.idle, ho.freed, fun hn => absurd hc hn,
    fun _ hp => (by cases hp), ⟨w, e, hsent, ⟨?_, hw.2⟩, fun hpos => ?_⟩, fun ho => (by cases ho)⟩
  · dsimp only
    rw [ho.split, List.append_assoc]
  · exact List.nodup_append.mpr ⟨ho.nodup, List.nodup_singleton _, fun a ha b hb hab =>
      hn (List.mem_singleton.mp hb ▸ hab ▸ ha)⟩
  · rcases List.mem_append.mp hm with hm | hm
    · exact ho.text n hm
    · rw [List.mem_singleton.mp hm]
      exact generateNewObjectName_name tm
  · dsimp only
    rw [hw.1]
  · have hret := (he hpos).2
    simp at hret

/-- The statements of `first_action` between the creation and the return. -/
theorem ObjectInv.between (ho : ObjectInv p x) {first : FirstPc} {data : Bytes}
    (hc : (x.pl.child ch.head).pc = .action) (hp : x.first.past = true) (hp' : first.past = true)
    (hret : x.first ≠ .ret)
    (hw : ∀ w, Written x.first x.data w x.created → Written first data w x.created) :
    ObjectInv p { x with data := data, first := first } := by
  obtain ⟨w, e, hsent, hwritten, he⟩ := ho.sent
  refine ⟨ho.split, ho.nodup, ho.text, ho.idle, ho.freed, fun hn => absurd hc hn,
    fun _ hpast => absurd (hp'.symm.trans hpast) (by simp), ⟨w, e, ?_, hw w hwritten, fun hpos => ?_⟩,
    fun ho => ?_⟩
  · rw [hp] at hsent
    rw [hp']
    exact hsent
  · rcases (he hpos).2 with hf | hf
    · rw [hf] at hp
      cases hp
    · exact absurd hf hret
  · dsimp only at ho
    rw [ho] at hp'
    cases hp'

theorem ObjectInv.firstRet (ho : ObjectInv p x)
    (hr : (Pipeline.sys cfg).Reach (Pipeline.carries ch.head) x.pl) {pl : Pipeline.State}
    (hf : x.first = .ret) (h : Pipeline.step cfg x.pl (.ret ch.head 0) = some pl) :
    ObjectInv p { x with pl := pl, first := .checkExit } := by
  have hi := Pipeline.reach_inv ch hr
  have hret := Pipeline.actionReturn_move h
  have hpassed := fun past => (Pipeline.Move.child hret).passed past ch hi
    (Pipeline.startInv hr) (Pipeline.slotInv ch hr) (Pipeline.lt_of_method p.method_last)
    (p.action p.last) (by simp) (fun status he => p.last_ne_head (Pipeline.Label.ret.inj he).1.symm)
  have hlidle : (x.pl.child p.last).pc = .readCmd → x.action p.last = .find := fun hc =>
    ho.idle _ p.last_ne_head (by simp [hc])
  refine ⟨ho.split, ho.nodup, ho.text, fun i hne hn => ?_, ?_, fun _ => rfl, fun hc => ?_, ?_,
    fun ho => (by cases ho)⟩
  · rw [hret.child_of_ne hne] at hn
    exact ho.idle i hne hn
  · have hfreed := ho.freed
    rwa [← hpassed _ fun hc => by simp [State.past, hlidle hc]] at hfreed
  · have hleft : (pl.child ch.head).pc ≠ .action := by
      cases hret
      simp
    exact absurd hc hleft
  · obtain ⟨w, e, hsent, hw, he⟩ := ho.sent
    rw [hf] at hsent hw
    refine ⟨w, e, ?_, hw, fun hpos => ⟨(he hpos).1, Or.inl rfl⟩⟩
    rw [hret.passed_ret (hi.job ch.head)]
    exact hsent

theorem ObjectInv.setAction (ho : ObjectInv p x) {pc : ActionPc} (hc : (x.pl.child i).pc = .action)
    (hpast : i = p.last → (x.action p.last = .ret ↔ pc = .ret)) :
    ObjectInv p (x.setAction i pc) := by
  refine ⟨ho.split, ho.nodup, ho.text, fun j hne hn => ?_, ?_, ho.head_idle, ho.fresh, ho.sent,
    ho.overrun⟩
  · by_cases hji : j = i
    · subst hji
      exact absurd hc hn
    · simp only [State.setAction, Function.update_of_ne hji]
      exact ho.idle j hne hn
  · by_cases hli : p.last = i
    · have hsame : (x.setAction i pc).past p.last = x.past p.last := by
        subst hli
        simp [State.past, State.setAction, hpast rfl]
      rw [hsame]
      exact ho.freed
    · have hsame : (x.setAction i pc).past p.last = x.past p.last := by
        simp [State.past, State.setAction, Function.update_of_ne hli]
      rw [hsame]
      exact ho.freed

/-- What the last module does for the name of its job. -/
theorem ObjectInv.lastUse (ho : ObjectInv p x) {segment freed : List Bytes}
    (hr : (Pipeline.sys cfg).Reach (Pipeline.carries ch.head) x.pl)
    (hc : (x.pl.child p.last).pc = .action) (hu : x.action p.last = .use)
    (hsplit : x.freed ++ x.segment = freed ++ segment) (hnodup : segment.Nodup)
    (hfreed : freed = x.freed ++ [slotName x.pl p.last].filter (· ≠ [])) :
    ObjectInv p ({ x with segment := segment, freed := freed }.setAction p.last .ret) := by
  have hj := (Pipeline.reach_inv ch hr).job p.last
  refine ⟨ho.split.trans hsplit, hnodup, ho.text, fun j hne hn => ?_, ?_, ho.head_idle, ho.fresh, ho.sent,
    ho.overrun⟩
  · by_cases hjl : j = p.last
    · subst hjl
      exact absurd hc hn
    · simp only [State.setAction, Function.update_of_ne hjl]
      exact ho.idle j hne hn
  · have hbefore := ho.freed
    rw [State.past, hu, decide_eq_false (by simp), (Pipeline.passed_action hj hc).1] at hbefore
    have hpast : State.past ({ x with segment := segment, freed := freed }.setAction p.last .ret)
        p.last = true := by
      simp [State.past, State.setAction]
    rw [hpast]
    show freed = (names (x.pl.passed p.last true)).filter (· ≠ [])
    rw [(Pipeline.passed_action hj hc).2, names_append, List.filter_append, ← hbefore, hfreed, slotName,
      (hj.in_action hc).2.2.2]
    rfl

theorem ObjectInv.free (ho : ObjectInv p x)
    (hr : (Pipeline.sys cfg).Reach (Pipeline.carries ch.head) x.pl)
    (hc : (x.pl.child p.last).pc = .action) (hu : x.action p.last = .use)
    (hm : slotName x.pl p.last ∈ x.segment) :
    ObjectInv p ({ x with
      segment := x.segment.erase (slotName x.pl p.last)
      freed := x.freed ++ [slotName x.pl p.last] }.setAction p.last .ret) := by
  have hne : slotName x.pl p.last ≠ [] :=
    (ho.text _ (ho.split ▸ List.mem_append_right _ hm)).2.1
  obtain ⟨t, ht⟩ := (ho.last_work hr hc hu).resolve_left hne
  refine ho.lastUse hr hc hu ?_ (ho.nodup.erase _) (by simp [hne])
  rw [ht, List.erase_cons_head, List.append_assoc, List.singleton_append]

theorem ObjectInv.skip (ho : ObjectInv p x)
    (hr : (Pipeline.sys cfg).Reach (Pipeline.carries ch.head) x.pl)
    (hc : (x.pl.child p.last).pc = .action) (hu : x.action p.last = .use)
    (hm : slotName x.pl p.last ∉ x.segment) : ObjectInv p (x.setAction p.last .ret) := by
  have hnil : slotName x.pl p.last = [] := (ho.last_work hr hc hu).resolve_right fun ⟨t, ht⟩ =>
    hm (ht ▸ List.mem_cons_self)
  exact ho.lastUse hr hc hu rfl ho.nodup (by simp [hnil])

theorem ObjectInv.ret (ho : ObjectInv p x)
    (hr : (Pipeline.sys cfg).Reach (Pipeline.carries ch.head) x.pl) {pl : Pipeline.State}
    (hne : i ≠ ch.head) (hc : (x.pl.child i).pc = .action) (hf : x.action i = .ret)
    (h : Pipeline.step cfg x.pl (.ret i 0) = some pl) :
    ObjectInv p ({ x with pl := pl }.setAction i .find) := by
  have hi := Pipeline.reach_inv ch hr
  have hret := Pipeline.actionReturn_move h
  have hpassed := fun j past hlt (hji : j ≠ i) =>
    (Pipeline.Move.child hret).passed (i := j) past ch hi (Pipeline.startInv hr)
    (Pipeline.slotInv ch hr) hlt (p.action j) (by simp)
    (fun status he => hji (Pipeline.Label.ret.inj he).1.symm)
  have hhead := fun past => hpassed ch.head past ch.head_lt hne.symm
  have hhidle : (x.pl.child ch.head).pc = .readCmd → x.first = .checkExit := fun hc =>
    ho.head_idle (by simp [hc])
  have hchild := hret.child_of_ne hne.symm
  refine ⟨ho.split, ho.nodup, ho.text, fun j hj hn => ?_, ?_, fun hn => ?_, fun hc' hp => ?_, ?_,
    ho.overrun⟩
  · by_cases hji : j = i
    · simp [State.setAction, hji]
    · simp only [State.setAction, Function.update_of_ne hji]
      exact ho.idle j hj (hret.child_of_ne hji ▸ hn)
  · have hfreed := ho.freed
    by_cases hli : p.last = i
    · subst hli
      have hpast : x.past p.last = true := by simp [State.past, hf]
      rw [hpast, ← hret.passed_ret (hi.job p.last) false] at hfreed
      rw [State.past]
      simpa [State.setAction] using hfreed
    · have hlast := hpassed p.last (x.past p.last) (Pipeline.lt_of_method p.method_last) hli fun hc => by
        simp [State.past, ho.idle _ p.last_ne_head (by simp [hc])]
      rw [← hlast] at hfreed
      simpa [State.setAction, State.past, Function.update_of_ne hli] using hfreed
  · exact ho.head_idle (hchild ▸ hn)
  · simp only [State.setAction] at hc' hp ⊢
    rw [hchild] at hc' ⊢
    exact ho.fresh hc' hp
  · have hs := ho.sent
    rw [← hhead x.first.past fun hc => by simp [hhidle hc, FirstPc.past]] at hs
    exact hs

theorem ObjectInv.move (ho : ObjectInv p x)
    (hr : (Pipeline.sys cfg).Reach (Pipeline.carries ch.head) x.pl) (h : Move p x x') :
    ObjectInv p x' := by
  cases h with
  | pipeline ha h => exact ho.pipeline hr ha h
  | checkExit hc hf => exact ho.checkExit hr hc hf
  | overrun hc hf hn => exact ho.overruns hc hf hn
  | copy hc hf h => exact ho.copy hr hc hf h
  | create hc hf tm hn => exact ho.create hc hf tm hn
  | firstFind hc hf =>
    refine ho.between hc (by rw [hf]; rfl) rfl (by rw [hf]; simp) fun w hw => ?_
    rw [hf] at hw
    exact hw
  | publish hc hf =>
    refine ho.between hc (by rw [hf]; rfl) rfl (by rw [hf]; simp) fun w hw => ?_
    rw [hf] at hw
    exact hw.1
  | firstRet _ hf h => exact ho.firstRet hr hf h
  | find hne hc hf => exact ho.setAction hc fun hl => by subst hl; simp [hf]
  | analyze hne hl hc hf hm => exact ho.setAction hc fun he => absurd he hl
  | free hc hf hm => exact ho.free hr hc hf hm
  | skip hc hf hm => exact ho.skip hr hc hf hm
  | ret hne hc hf h => exact ho.ret hr hne hc hf h
  | stopCollector =>
    obtain ⟨w, e, hsent, hw, he⟩ := ho.sent
    exact ⟨ho.split, ho.nodup, ho.text, ho.idle, ho.freed, ho.head_idle, ho.fresh,
      ⟨w, e, hsent, hw, fun hpos => ⟨rfl, (he hpos).2⟩⟩, ho.overrun⟩

theorem objectInv {ok : State → Label → Prop} (h : (sys p).Reach ok x) : ObjectInv p x := by
  refine h.invariant (ObjectInv p) ?_ fun x a x' hr ho _ hs =>
    ho.move (reach_pipeline hr) (step_move hs)
  rintro x ⟨tm, rfl⟩
  refine ⟨rfl, List.nodup_singleton _, fun n hn => ?_, fun _ _ _ => rfl, rfl, fun _ => rfl,
    fun _ _ => rfl, ⟨[], 0, rfl, rfl, fun hpos => absurd hpos (lt_irrefl 0)⟩, fun ho => (by cases ho)⟩
  rw [List.mem_singleton.mp hn]
  exact generateNewObjectName_name tm

/-! ### Lookups -/

theorem passed_taken (p : Programs cfg ch)
    (hr : (Pipeline.sys cfg).Reach (Pipeline.carries ch.head) x.pl) (past : Bool) :
    x.pl.passed p.last past <+: Pipeline.jobs (x.pl.taken p.last) := by
  have hcarry := Pipeline.carryInv ch hr p.method_last p.last_ne_head
  rw [hcarry, Pipeline.State.passed, List.prefix_append_right_inj, Pipeline.State.passing]
  split
  · rename_i hpast
    have hwork : (x.pl.thr p.last).working = true := by
      rcases hpast with hacted | ⟨hc, -⟩
      · exact Pipeline.acted_working hacted
      · obtain ⟨hwait, -⟩ := ((Pipeline.reach_inv ch hr).job p.last).in_action hc
        simp [Pipeline.Thread.working, hwait]
    rw [Pipeline.jobInWork, if_pos hwork]
  · exact List.nil_prefix

/-- The last module has seen no more than a module before it has completed. -/
theorem last_passed_done (p : Programs cfg ch)
    (hr : (Pipeline.sys cfg).Reach (Pipeline.carries ch.head) x.pl) (hi : i < cfg.modulesCnt)
    (hlt : ch.pos i < ch.pos p.last) (past : Bool) :
    names (x.pl.passed p.last past) <+: names (x.pl.done i) := by
  obtain ⟨j, hn⟩ := ch.exists_pred (Pipeline.lt_of_method p.method_last) p.last_ne_head
  have hpos := ch.pos_next hn
  exact names_mono ((passed_taken p hr past).trans
    (Pipeline.taken_prefix_done ch hr hn hi (by omega)))

theorem ObjectInv.freed_done (ho : ObjectInv p x)
    (hr : (Pipeline.sys cfg).Reach (Pipeline.carries ch.head) x.pl) (hi : i < cfg.modulesCnt)
    (hlt : ch.pos i < ch.pos p.last) : x.freed.length ≤ (names (x.pl.done i)).length := by
  rw [ho.freed]
  exact (List.length_filter_le _ _).trans (last_passed_done p hr hi hlt _).length_le

/-- The freed names are the first ones that the head has written. -/
theorem ObjectInv.freed_eq_take (ho : ObjectInv p x)
    (hr : (Pipeline.sys cfg).Reach (Pipeline.carries ch.head) x.pl) {w : List Bytes} {e : ℕ}
    (hsent : names (x.pl.passed ch.head x.first.past) = w ++ List.replicate e [])
    (hw : w <+: x.created) :
    x.freed = w.take (x.pl.passed p.last (x.past p.last)).length := by
  have hpre : names (x.pl.passed p.last (x.past p.last)) <+: w ++ List.replicate e [] :=
    hsent ▸ (last_passed_done p hr ch.head_lt p.head_before _).trans
      (names_mono (List.prefix_append _ _))
  rw [ho.freed, filter_eq_take (ho.written_ne_nil hw) hpre, names, List.length_map]

theorem ObjectInv.freed_written (ho : ObjectInv p x)
    (hr : (Pipeline.sys cfg).Reach (Pipeline.carries ch.head) x.pl) {w : List Bytes} {e : ℕ}
    (hsent : names (x.pl.passed ch.head x.first.past) = w ++ List.replicate e [])
    (hw : w <+: x.created) : x.freed.length ≤ w.length := by
  rw [ho.freed_eq_take hr hsent hw]
  exact List.length_take_le' _ _

/-- The name that the sources fill is that of an object. -/
theorem ObjectInv.filled (ho : ObjectInv p x)
    (hr : (Pipeline.sys cfg).Reach (Pipeline.carries ch.head) x.pl) : x.data ∈ x.segment := by
  obtain ⟨w, e, hsent, hw, he⟩ := ho.sent
  have hle := ho.freed_written hr hsent hw.prefix
  have hbehind : ∀ l : List Bytes, x.freed.length ≤ l.length → l ++ [x.data] <+: x.created →
      x.data ∈ x.segment := fun l hlen hpre => mem_of_prefix_append (ho.split ▸ hpre) hlen
  have hbetween : x.first.past = true → x.first ≠ .ret → w.getLast? = some x.data →
      x.data ∈ x.segment := by
    intro hpast hret hlast
    have hc : (x.pl.child ch.head).pc = .action := by
      by_contra hn
      rw [ho.head_idle hn] at hpast
      cases hpast
    have hzero : e = 0 := by
      by_contra hpos
      rcases (he (Nat.pos_of_ne_zero hpos)).2 with hf | hf
      · rw [hf] at hpast
        cases hpast
      · exact hret hf
    -- the name is in the slot of the head, which nobody behind it has seen
    rw [hpast, (Pipeline.passed_action ((Pipeline.reach_inv ch hr).job ch.head) hc).2, hzero,
      List.replicate_zero, List.append_nil, names_append] at hsent
    refine hbehind _ (ho.freed_done hr ch.head_lt p.head_before) ?_
    rw [← hsent] at hlast hw
    rw [names, names, List.map_singleton, List.getLast?_append, List.getLast?_singleton,
      Option.some_or, Option.some_inj] at hlast
    have hpre := hw.prefix
    rwa [names, names, List.map_singleton, hlast] at hpre
  cases hf : x.first with
  | checkExit | copy | overrun | ret =>
    rw [hf] at hw
    exact hbehind w hle ⟨[], by rw [List.append_nil]; exact hw.symm⟩
  | create =>
    rw [hf] at hw
    exact hbetween (by rw [hf]; rfl) (by simp [hf]) hw.2
  | find objName | publish objName =>
    rw [hf] at hw
    exact hbetween (by rw [hf]; rfl) (by simp [hf]) hw.2

/-- No write leaves its buffer: the name of an object and its zero byte fit into the slot, and the slots
into the ring. -/
structure InBounds (cfg : Config) (x : State) : Prop where
  slot : x.first ≠ .overrun
  ring : ∀ k, k < cfg.modulesCnt → (x.pl.thr k).pc = .push → x.pl.ring.PushInside

theorem inBounds {p : Programs cfg ch} (hsize : 41 ≤ cfg.map.dataSize) (hbig : cfg.map.dataCnt ≤ 2 ^ 30)
    (h : (sys p).Reach Lts.anyStep x) : InBounds cfg x where
  slot hf := by
    have ho := objectInv h
    have hfilled := ho.filled (reach_pipeline h)
    have hlong := ho.overrun hf
    have hshort := (ho.text x.data (ho.split ▸ List.mem_append_right _ hfilled)).2.2
    omega
  ring _ hk := (Pipeline.slotInv ch (reach_pipeline h)).pushInside hbig hk

theorem Written.length_le {first : FirstPc} {data : Bytes} {w created : List Bytes}
    (h : Written first data w created) : created.length ≤ w.length + 1 := by
  unfold Written at h
  split at h
  all_goals simp [h]

theorem passed_length (hi : Pipeline.Inv cfg x.pl) (i : ℕ) (past : Bool) :
    (x.pl.passed i past).length ≤
      (x.pl.done i).length + (Pipeline.jobInWork (x.pl.thr i) x.pl.chunk).length := by
  rw [Pipeline.State.passed, List.length_append, Pipeline.State.passing]
  split
  · rename_i hpast
    have hwork : (x.pl.thr i).working = true := by
      rcases hpast with hacted | ⟨hc, -⟩
      · exact Pipeline.acted_working hacted
      · simp [Pipeline.Thread.working, ((hi.job i).in_action hc).1]
    simp [Pipeline.jobInWork, hwork]
  · simp

theorem ObjectInv.size (ho : ObjectInv p x)
    (hr : (Pipeline.sys cfg).Reach (Pipeline.carries ch.head) x.pl) :
    x.segment.length ≤ cfg.map.dataCnt + 1 := by
  obtain ⟨w, e, hsent, hw, -⟩ := ho.sent
  have hcreated := hw.length_le
  have hway := Pipeline.under_way_le ch hr p.method_last
  have hhead := passed_length (Pipeline.reach_inv ch hr) ch.head x.first.past
  have hw' := congrArg List.length hsent
  have hsplit := congrArg List.length ho.split
  have hfreed := congrArg List.length (ho.freed_eq_take hr hsent hw.prefix)
  simp only [names, Pipeline.State.passed, List.length_map, List.length_append, List.length_replicate,
    List.length_take] at hw' hsplit hfreed
  rw [Pipeline.State.passed, List.length_append] at hhead
  omega

/-- The segment has at most one object more than there are slots, and after the shutdown only the one
that the sources fill. -/
structure Bounded (cfg : Config) (x : State) : Prop where
  size : x.segment.length ≤ cfg.map.dataCnt + 1
  left : Pipeline.Over cfg x.pl → x.segment = [x.data]
  inBounds : InBounds cfg x

end Invariant

/-! ### A run -/

/-- Three modules over two slots with room for a name. -/
def threePrograms : Config :=
  { Pipeline.threeModules some fun _ => true with
    map := ⟨3, 64, 2, 64⟩
    dataSize_pos := by decide }

def threePrograms.chain : Chain threePrograms :=
  let ch := Pipeline.threeModules.chain some fun _ => true
  ⟨ch.path, ch.nodup, ch.mem_path, ch.two_le, ch.next_eq, ch.method_eq⟩

end TmkDcl.Processor
