import BackboneEvents.LockOrders
import BackboneEvents.VerbCalls

/-!
# The row locks of the seat verbs

Registrations, state verbs and seam deliveries take row locks one at a time and keep them to
their ends. A registration and a verb that takes a seat go upward: an existing registration,
the event, its slot, its after_sub schedulers. A cancellation and the heal of an order to pay take
the order's rows as they are stored. A mint locks the events of its specs in the order its caller
gave, and a paid fact locks the rows it heals before the rows it only sells. Two of these can wait
for each other in a ring.
-/
namespace BackboneEvents.SeatLocks
open ConstrainedTables TransactionPrograms TransactionInterleavings GrandTotal LockWaits LockOrders

def rowLock : Lock → Bool
  | .event _ | .slot _ | .registration _ | .mail _ => true
  | .barcode _ | .inbox _ _ | .booth _ | .booking _ | .bookingLine _ _ | .confirmedBooking _
  | .leadRequest _ => false

def isBarcode : Lock → Bool
  | .barcode _ => true
  | _ => false

/-- An insert of a registration, which holds its new keys and waits for no row. -/
def insertsRow (locks : List Lock) : Bool := locks.any isBarcode

def waitsForRow (locks : List Lock) (l : Lock) : Bool := rowLock l && !insertsRow locks

def slotEvent (s : Db) (slot : Uuid) : Uuid :=
  ((s.slots.find (·.id == slot)).map Slot.eventId).getD 0

/-- The locks that heals take too. -/
def lightLock : Lock → Bool
  | .event _ | .slot _ => false
  | _ => true

/-- A slot is only locked under its event. -/
def lockedUnder (s : Db) : Lock → Option Lock
  | .slot slot => some (.event (slotEvent s slot))
  | _ => none

/-- What no call ever changes of a registration: its id, its event, its order and whether it is
active. -/
abbrev RowKey := Uuid × Uuid × Option Uuid × Bool

def rowKey (r : Registration) : RowKey := (r.id, r.eventId, r.saleOrderId, r.active)

def seatOrder (s : Db) (order : Lock → ℕ) : LockOrder Db RowKey Lock where
  row := rowLock
  inserts := insertsRow
  under := lockedUnder s
  light := lightLock
  order := order
  keys t := t.registrations.rows.map rowKey
  lock k := .registration k.1
  under_light l h := by cases l <;> simp [lightLock, lockedUnder] at h ⊢
  lock_light _ := rfl

/-- What a scheduler's lock is chosen by. -/
def mailKey (m : Mail) : Uuid × Uuid × IntervalKind := (m.id, m.eventId, m.intervalKind)

/-- The slots and the keys of the schedulers are as they were. -/
structure Still (s t : Db) : Prop where
  slots : t.slots = s.slots
  mails : t.mails.rows.map mailKey = s.mails.rows.map mailKey

theorem Still.refl (s : Db) : Still s s := ⟨rfl, rfl⟩

theorem Still.trans {s t u : Db} (h : Still s t) (h' : Still t u) : Still s u :=
  ⟨h'.slots.trans h.slots, h'.mails.trans h.mails⟩

theorem Still.symm {s t : Db} (h : Still s t) : Still t s := ⟨h.slots.symm, h.mails.symm⟩

/-- The registration is still there, on the same event. -/
def Stays (id : Uuid) (s t : Db) : Prop :=
  ∀ r, s.registration? id = some r → ∃ r', t.registration? id = some r' ∧ r'.eventId = r.eventId

/-- The registration a state verb is about. -/
def watched : Call → Option Uuid
  | .transition _ registrationId _ _ => some registrationId
  | .register _ _ | .seam _ => none

def relies {ι : Type} (calls : ι → Call) : Relies ι Db where
  rel i s t := Still s t ∧ ∀ id, watched (calls i) = some id → Stays id s t
  refl i s := ⟨.refl s, fun id _ r hr => ⟨r, hr, rfl⟩⟩
  trans i s t u h h' := by
    refine ⟨h.1.trans h'.1, fun id hid r hr => ?_⟩
    obtain ⟨r', hr', hevent⟩ := h.2 id hid r hr
    obtain ⟨r'', hr'', hevent'⟩ := h'.2 id hid r' hr'
    exact ⟨r'', hr'', hevent'.trans hevent⟩

section writes

/-- The change leaves slots and schedulers' keys alone and every registration on its event, and
only adds to the registrations. -/
structure Keeps (f : Db → Db) : Prop where
  still : ∀ s, Still s (f s)
  stays : ∀ s id, Stays id s (f s)
  grown : ∀ s, s.registrations.rows.map rowKey <+: (f s).registrations.rows.map rowKey

/-- It brings in no registration either. -/
def KeepsRows (f : Db → Db) : Prop := Keeps f ∧ ∀ s id, Stays id (f s) s

theorem keepsRows_id : KeepsRows fun s => s :=
  ⟨⟨.refl, fun _ _ r hr => ⟨r, hr, rfl⟩, fun _ => List.prefix_rfl⟩, fun _ _ r hr => ⟨r, hr, rfl⟩⟩

theorem allows_of_keeps {ι : Type} {calls : ι → Call} {i : ι} {origin : Db} {order : Lock → ℕ}
    {f : Db → Db} (h : Keeps f) (hi : watched (calls i) = none ∨ ∀ s id, Stays id (f s) s) :
    (relies calls).Allows (seatOrder origin order) i f where
  kept j s := ⟨h.still s, fun id _ => h.stays s id⟩
  grown := h.grown
  alike s t hst := by
    refine ⟨(h.still s).symm.trans (hst.1.trans (h.still t)), fun id hid r hr => ?_⟩
    rcases hi with hnone | hback
    · rw [hnone] at hid
      cases hid
    obtain ⟨r₁, hr₁, hevent₁⟩ := hback s id r hr
    obtain ⟨r₂, hr₂, hevent₂⟩ := hst.2 id hid r₁ hr₁
    obtain ⟨r₃, hr₃, hevent₃⟩ := h.stays t id r₂ hr₂
    exact ⟨r₃, hr₃, hevent₃.trans (hevent₂.trans hevent₁)⟩

/-- A change of registrations that keeps their keys, with the other tables untouched. -/
theorem keepsRows_modify (p : Registration → Bool) {f : Update Registration}
    (hf : ∀ r, rowKey (f r) = rowKey r) :
    KeepsRows fun s => { s with registrations := s.registrations.modify p f } := by
  have hfind : ∀ (s : Db) id,
      ({ s with registrations := s.registrations.modify p f } : Db).registration? id =
        (s.registration? id).map fun x => if p x then f x else x := fun s id =>
    Table.find_modify fun x => by rw [show (f x).id = x.id from congrArg (·.1) (hf x)]
  have hkey : ∀ x : Registration, rowKey (if p x then f x else x) = rowKey x := fun x => by
    split
    · exact hf x
    · rfl
  have hevent : ∀ x : Registration, (if p x then f x else x).eventId = x.eventId := fun x =>
    congrArg (·.2.1) (hkey x)
  refine ⟨⟨fun s => ⟨rfl, rfl⟩, fun s id r hr => ?_, fun s => ?_⟩, fun s id r hr => ?_⟩
  · exact ⟨_, by rw [hfind, hr]; rfl, hevent r⟩
  · have hkeys : (rowKey ∘ fun x => if p x then f x else x) = rowKey := funext hkey
    rw [Table.rows_modify, List.map_map, hkeys]
  · rw [hfind] at hr
    obtain ⟨x, hx, rfl⟩ := Option.map_eq_some_iff.mp hr
    exact ⟨x, hx, (hevent x).symm⟩

/-- A change that leaves the slots and the registrations alone. -/
theorem keepsRows_of_same {f : Db → Db} (hslots : ∀ s, (f s).slots = s.slots)
    (hmails : ∀ s, (f s).mails.rows.map mailKey = s.mails.rows.map mailKey)
    (hregistrations : ∀ s, (f s).registrations = s.registrations) : KeepsRows f := by
  refine ⟨⟨fun s => ⟨hslots s, hmails s⟩, fun s id r hr => ⟨r, ?_, rfl⟩, fun s => ?_⟩,
    fun s id r hr => ⟨r, ?_, rfl⟩⟩
  · rw [Db.registration?, hregistrations]
    exact hr
  · rw [hregistrations]
  · rw [Db.registration?, hregistrations] at hr
    exact hr

theorem keeps_insert (env : Env) (r : Registration) (v : Db) : Keeps fun s =>
    if insertable v env r then { s with registrations := s.registrations.push r } else s := by
  split
  · refine ⟨fun s => ⟨rfl, rfl⟩, fun s id x hx => ⟨x, ?_, rfl⟩, fun s => ?_⟩
    · cases haccepts : s.registrations.accepts r with
      | true =>
        rw [Db.registration?, Table.find] at hx
        rw [Db.registration?, Table.find, Table.rows_push haccepts, List.find?_append, hx,
          Option.some_or]
      | false =>
        rw [Db.registration?, Table.push_of_not_accepts haccepts]
        exact hx
    · cases haccepts : s.registrations.accepts r with
      | true =>
        rw [Table.rows_push haccepts, List.map_append]
        exact List.prefix_append _ _
      | false => rw [Table.push_of_not_accepts haccepts]
  · exact keepsRows_id.1

theorem mailKeys_modify (p : Mail → Bool) (now : Timestamp) (mails : Table Mail) :
    (mails.modify p (Mail.armed now)).rows.map mailKey = mails.rows.map mailKey := by
  rw [Table.rows_modify, List.map_map]
  refine List.map_congr_left fun m _ => ?_
  simp only [Function.comp_apply]
  split <;> rfl

theorem writes_recordAudit (row : AuditRow) : Writes KeepsRows (recordAudit row) :=
  writes_update fun _ => keepsRows_of_same (fun _ => rfl) (fun _ => rfl) fun _ => rfl

theorem writes_armAfterSub (env : Env) (events : Db → Uuid → Bool) :
    Writes KeepsRows (armAfterSub env events) :=
  writes_update fun _ => keepsRows_of_same (fun _ => rfl) (fun s => mailKeys_modify _ _ s.mails)
    fun _ => rfl

theorem writes_armLeadRequest (env : Env) (eventId : Uuid) (trigger : LeadRule → Bool) :
    Writes KeepsRows (armLeadRequest env eventId trigger) := by
  refine writes_update fun v => keepsRows_of_same (fun s => ?_) (fun s => ?_) fun s => ?_ <;>
    split <;> rfl

theorem writes_lockEvent (eventId : Uuid) : Writes KeepsRows (lockEvent eventId) :=
  writes_bind (writes_selectForUpdate keepsRows_id) fun _ => writes_require _ _

theorem writes_transition (env : Env) (registrationId : Uuid) (target : RegistrationState)
    (actor : Option Uuid) : Writes KeepsRows (transition env registrationId target actor) := by
  have hhead : Writes KeepsRows (seatHead registrationId) :=
    writes_bind (writes_select keepsRows_id) fun _ => writes_bind (writes_require _ _) fun _ =>
      writes_bind (writes_lockEvent _) fun _ => writes_bind (writes_select keepsRows_id) fun _ =>
        writes_refuseWhen _ _
  have hsettle : ∀ before, Writes KeepsRows (settleMove env before target actor) := fun _ =>
    writes_bind (writes_onlyIf (writes_armAfterSub _ _)) fun _ =>
      writes_bind (writes_onlyIf (writes_armLeadRequest _ _ _)) fun _ =>
        writes_onlyIf (writes_recordAudit _)
  have hmove : Writes KeepsRows (moveState env registrationId target) :=
    writes_update fun v => keepsRows_modify _ fun _ => rfl
  exact writes_bind hmove fun _ => writes_bind (writes_require _ _) fun before =>
    writes_bind (writes_onlyIf hhead) fun _ => writes_bind (hsettle before) fun _ => trivial

theorem writes_keeps {α : Type} {p : Tx α} (h : Writes KeepsRows p) : Writes Keeps p :=
  h.imp fun _ hf => hf.1

theorem writes_registerCore (env : Env) (draw : Draw) (cmd : RegisterCommand)
    (link : Option SaleLink) : Writes Keeps (registerCore env draw cmd link) := by
  have hid : Keeps fun s => s := keepsRows_id.1
  have hslot : ∀ event, Writes Keeps (lockSlot event cmd) := by
    intro event
    rw [lockSlot]
    split
    · exact writes_bind (writes_require _ _) fun _ => writes_bind (writes_selectForUpdate hid)
        fun _ => writes_bind (writes_refuseWhen _ _) fun _ => trivial
    · trivial
  have hticket : Writes Keeps (ticketWindow draw cmd) := by
    rw [ticketWindow]
    split
    · trivial
    · exact writes_bind (writes_select hid) fun _ => writes_bind (writes_require _ _) fun _ =>
        writes_refuseWhen _ _
  have hinsert : ∀ r, Writes Keeps (insertRegistration env r) := by
    intro r
    refine ⟨keeps_insert env r, fun v => ?_⟩
    dsimp only
    split <;> trivial
  refine writes_bind (writes_keeps (writes_lockEvent _)) fun event => ?_
  refine writes_bind (writes_refuseWhen _ _) fun _ => writes_bind (hslot event) fun _ => ?_
  refine writes_bind hticket fun _ => writes_bind (writes_select hid) fun _ => ?_
  refine writes_bind (writes_refuseWhen _ _) fun _ => writes_bind (writes_select hid) fun _ => ?_
  refine writes_bind (hinsert _) fun _ => ?_
  refine writes_bind (writes_onlyIf (writes_keeps (writes_armAfterSub _ _))) fun _ => ?_
  refine writes_bind (writes_onlyIf (writes_keeps (writes_armLeadRequest _ _ _))) fun _ => ?_
  exact writes_bind (writes_keeps (writes_recordAudit _)) fun _ => trivial

theorem writes_mint (env : Env) (link : SaleLink) (touched : ℕ) (specs : List RegisterCommand) :
    Writes Keeps (mint env link touched specs) := by
  induction specs generalizing touched with
  | nil => trivial
  | cons spec specs ih => exact writes_bind (writes_registerCore _ _ _ _) fun _ => ih _

theorem writes_updateRegistrations (p : Registration → Bool) {f : Update Registration}
    (hf : ∀ r, rowKey (f r) = rowKey r) :
    Writes Keeps (updateRegistrations p f) :=
  writes_update fun _ => (keepsRows_modify _ hf).1

theorem writes_latchBooths (lineIds : List Uuid) : Writes Keeps (latchBooths lineIds) := by
  rw [latchBooths]
  split
  · trivial
  · exact writes_keeps (writes_update fun _ =>
      keepsRows_of_same (fun _ => rfl) (fun _ => rfl) fun _ => rfl)

theorem writes_seam (c : SeamCall) : Writes Keeps c.program := by
  have hclaim : Writes Keeps (claim c.key.consumer c.key.externalId) :=
    writes_keeps (writes_update fun _ =>
      keepsRows_of_same (fun _ => rfl) (fun _ => rfl) fun _ => rfl)
  have harm := fun events => writes_keeps (writes_armAfterSub c.env events)
  have hbody : Writes Keeps c.body := by
    rw [SeamCall.body]
    cases c.verb with
    | confirmed grandTotal specs =>
      refine writes_bind (writes_select keepsRows_id.1) fun linked => ?_
      split
      · exact writes_bind (writes_mint _ _ _ _) fun _ => trivial
      · rw [healOrder]
        split
        · exact writes_bind (writes_updateRegistrations _ fun _ => rfl) fun _ =>
            writes_bind (harm _) fun _ => trivial
        · exact writes_bind (writes_updateRegistrations _ fun _ => rfl) fun _ => trivial
    | cancelled => exact writes_bind (writes_updateRegistrations _ fun _ => rfl) fun _ => trivial
    | paid lineIds =>
      exact writes_bind (writes_updateRegistrations _ fun _ => rfl) fun _ =>
        writes_bind (writes_updateRegistrations _ fun _ => rfl) fun _ =>
          writes_bind (harm _) fun _ => writes_bind (writes_latchBooths _) fun _ => trivial
  rw [c.program_eq]
  refine writes_bind hclaim fun claimed => ?_
  split
  · trivial
  · exact hbody

/-- Every change a call makes is one its reliances allow. -/
theorem writes_program {ι : Type} {calls : ι → Call} {origin : Db} {order : Lock → ℕ} (i : ι) :
    Writes ((relies calls).Allows (seatOrder origin order) i) (calls i).program := by
  cases hcall : calls i with
  | register env cmd =>
    exact writes_bind ((writes_registerCore _ _ _ _).imp fun f hf =>
      allows_of_keeps hf (.inl (by rw [hcall, watched]))) fun _ => trivial
  | transition env registrationId target actor =>
    exact writes_bind ((writes_transition _ _ _ _).imp fun f hf =>
      allows_of_keeps hf.1 (.inr hf.2)) fun _ => trivial
  | seam c =>
    exact writes_bind ((writes_seam c).imp fun f hf =>
      allows_of_keeps hf (.inl (by rw [hcall, watched]))) fun _ => trivial

end writes

section order

/-- The locks an arm of the event's after_sub schedulers takes, in turn. -/
def armedLocks (s : Db) (eventId : Uuid) : List Lock :=
  (s.mails.rows.filter (afterSubOf (· == eventId))).map fun m => .mail m.id

/-- Registrations come before events, and an event before its schedulers, as they are stored. -/
structure RowOrder (s : Db) (order : Lock → ℕ) : Prop where
  registration_event : ∀ r e, order (.registration r) < order (.event e)
  event_mail : ∀ e, ∀ l ∈ armedLocks s e, order (.event e) < order l
  mails : ∀ e, (armedLocks s e).Pairwise fun k l => order k < order l

/-- The event ranks above others that were passed, and above the schedulers armed there. -/
def Above (s : Db) (order : Lock → ℕ) (arms : Bool) (passed : List Uuid) (eventId : Uuid) : Prop :=
  ∀ e ∈ passed, order (.event e) < order (.event eventId) ∧
    (arms = true → ∀ l ∈ armedLocks s e, order l < order (.event eventId))

/-- Each event named for the first time ranks above those named before. -/
def Upward (s : Db) (order : Lock → ℕ) (arms : Bool) (events : List Uuid) : Prop :=
  ∀ before e after, events = before ++ e :: after → e ∉ before → Above s order arms before e

/-- The locks of the passed events, and of their schedulers where these are armed. -/
structure Holds (s : Db) (arms : Bool) (passed : List Uuid) (held : List Lock) : Prop where
  events : ∀ e ∈ passed, Lock.event e ∈ held
  mails : arms = true → ∀ e ∈ passed, armedLocks s e ⊆ held

/-- Others wait for no locks but those, and those of registrations. -/
def Within (s : Db) (arms : Bool) (passed : List Uuid) (high : List Lock) : Prop :=
  ∀ k ∈ high, rowLock k = true → (∃ r, k = .registration r) ∨ (∃ slot, k = .slot slot) ∨
    ∃ e ∈ passed, k = .event e ∨ arms = true ∧ k ∈ armedLocks s e

variable {s v : Db} {order : Lock → ℕ} {arms : Bool} {passed : List Uuid} {held high : List Lock}
  {eventId : Uuid} {events : Uuid → Bool}

theorem armedLocks_eq (h : Still s v) (hevents : ∀ e, events e = (e == eventId)) :
    (v.mails.rows.filter (afterSubOf events)).map (fun m => Lock.mail m.id) =
      armedLocks s eventId := by
  have hkeys : ∀ t : Db, (t.mails.rows.filter (afterSubOf events)).map (fun m => Lock.mail m.id) =
      ((t.mails.rows.map mailKey).filter fun k => events k.2.1 && k.2.2 == .afterSub).map
        fun k => Lock.mail k.1 := by
    intro t
    rw [List.filter_map, List.map_map]
    rfl
  have hpred : events = (· == eventId) := funext hevents
  rw [hkeys, h.mails, ← hkeys, armedLocks, hpred]

theorem Holds.more (h : Holds s arms passed held) (extra : List Lock) :
    Holds s arms passed (held ++ extra) where
  events e he := List.mem_append_left _ (h.events e he)
  mails harms e he := List.subset_append_of_subset_left _ (h.mails harms e he)

theorem Within.more {extra : List Lock} (h : Within s arms passed high)
    (hextra : ∀ k ∈ extra, rowLock k = true → (∃ r, k = .registration r) ∨ ∃ slot, k = .slot slot) :
    Within s arms passed (high ++ extra) := by
  intro k hk hrow
  rcases List.mem_append.mp hk with hold | hnew
  · exact h k hold hrow
  · exact (hextra k hnew hrow).imp_right .inl

theorem Within.event (h : Within s arms passed high) (eventId : Uuid) :
    Within s arms (passed ++ [eventId]) (high ++ [.event eventId]) := by
  intro k hk hrow
  rcases List.mem_append.mp hk with hold | hnew
  · rcases h k hold hrow with hr | hslot | ⟨e, he, hk⟩
    · exact .inl hr
    · exact .inr (.inl hslot)
    · exact .inr (.inr ⟨e, List.mem_append_left _ he, hk⟩)
  · exact .inr (.inr ⟨eventId, by simp, .inl (List.mem_singleton.mp hnew)⟩)

theorem Within.armed (h : Within s arms passed high) (harms : arms = true)
    (he : eventId ∈ passed) : Within s arms passed (high ++ armedLocks s eventId) := by
  intro k hk hrow
  rcases List.mem_append.mp hk with hold | hnew
  · exact h k hold hrow
  · exact .inr (.inr ⟨eventId, he, .inr ⟨harms, hnew⟩⟩)

theorem waited_not_slot {slot : Uuid} : ¬ (seatOrder s order).Waited (.slot slot) := fun h => by
  cases h.2

/-- What is within the passed events ranks below an event above them. -/
theorem Within.lt_event (h : Within s arms passed high) (horder : RowOrder s order)
    (habove : Above s order arms passed eventId) {k : Lock} (hk : k ∈ high)
    (hwaited : (seatOrder s order).Waited k) : order k < order (.event eventId) := by
  rcases h k hk hwaited.1 with ⟨r, rfl⟩ | ⟨slot, rfl⟩ | ⟨e, he, rfl | ⟨harms, hmail⟩⟩
  · exact horder.registration_event r eventId
  · exact absurd hwaited waited_not_slot
  · exact (habove e he).1
  · exact (habove e he).2 harms k hmail

theorem mem_armedLocks {l : Lock} (h : l ∈ armedLocks s eventId) : ∃ m, l = .mail m := by
  obtain ⟨m, -, rfl⟩ := List.mem_map.mp h
  exact ⟨m.id, rfl⟩

theorem rises_armed (horder : RowOrder s order)
    (habove : ∀ l ∈ armedLocks s eventId, l ∈ held ∨
      ∀ k ∈ high, (seatOrder s order).Waited k → order k < order l) :
    Rises (seatOrder s order) held high (armedLocks s eventId) where
  under l hl g hg := by
    obtain ⟨m, rfl⟩ := mem_armedLocks hl
    cases hg
  above l hl _ _ := habove l hl
  ascends := (horder.mails eventId).imp fun h _ _ => h

end order

/-- The call is a delivery of the sale seam. -/
def Delivers : Call → Prop
  | .seam _ => True
  | .register _ _ | .transition _ _ _ _ => False

/-- A paid fact asks for the rows it only sells after those it heals, and while the heal of a free
order waits a row may come back to draft: either may ask for a row below one it has locked. -/
def Turns : Call → Prop
  | .seam c =>
    match c.verb with
    | .confirmed grandTotal _ => grandTotalIsZero grandTotal = true
    | .paid _ => True
    | .cancelled => False
  | .register _ _ | .transition _ _ _ _ => False

/-- The rest of the call's program takes its row locks in the seat order. -/
abbrev SeatClimbs {ι α : Type} (calls : ι → Call) (i : ι) (s : Db) (order : Lock → ℕ)
    (held high : List Lock) (u : Db) (p : Tx α) : Prop :=
  Climbs (seatOrder s order) ((relies calls).rel i) (Delivers (calls i)) (Turns (calls i)) false
    held high u p

/-- The same for a call that has left the registrations' keys as they are so far. -/
abbrev CalmClimbs {ι α : Type} (calls : ι → Call) (i : ι) (s : Db) (order : Lock → ℕ)
    (held high : List Lock) (u : Db) (p : Tx α) : Prop :=
  Climbs (seatOrder s order) ((relies calls).rel i) (Delivers (calls i)) (Turns (calls i)) true
    held high u p

section climbs

variable {ι α : Type} {calls : ι → Call} {i : ι} {s u : Db} {order : Lock → ℕ} {arms : Bool}
  {passed : List Uuid} {held high : List Lock} {env : Env}

theorem climbs_lockEvent {eventId : Uuid} {k : Event → Tx α}
    (habove : Lock.event eventId ∈ held ∨
      ∀ k ∈ high, (seatOrder s order).Waited k → order k < order (.event eventId))
    (rest : ∀ v event, (relies calls).rel i u v →
      SeatClimbs calls i s order (held ++ [.event eventId])
        (high ++ [.event eventId]) v (k event)) :
    SeatClimbs calls i s order held high u ((lockEvent eventId).bind k) := by
  rw [lockEvent, Program.bind_eq, Program.bind_assoc]
  refine .selectForUpdate [.event eventId] (fun v _ => ?_)
    (rises_singleton (fun g hg => ?_) fun _ => habove)
    fun v hv => .require fun event hevent => ?_
  · split
    · exact .inr rfl
    · exact .inl rfl
  · cases hg
  · rw [hevent]
    exact rest v event hv

theorem slotEvent_of_slotOf {slot eventId : Uuid} (h : (s.slotOf slot eventId).isSome = true) :
    slotEvent s slot = eventId := by
  obtain ⟨x, hx⟩ := Option.isSome_iff_exists.mp h
  have hspec : x.id = slot ∧ x.eventId = eventId := by simpa using Table.find_spec hx
  have hfind : s.slots.find (·.id == slot) = some x :=
    Table.find_eq_some (Table.find_mem hx) (by simp [hspec.1]) fun y hy => by
      simp only [beq_iff_eq] at hy
      simp [clash, hy, hspec.1]
  rw [slotEvent, hfind, Option.map_some, Option.getD_some, hspec.2]

theorem climbs_lockSlot {event : Event} {cmd : RegisterCommand} {k : Option Uuid → Tx α}
    (hu : Still s u) (hheld : Lock.event cmd.eventId ∈ held)
    (rest : ∀ v slotId locks, Still s v → (∀ k ∈ locks, ∃ slot, k = Lock.slot slot) →
      SeatClimbs calls i s order (held ++ locks) (high ++ locks) v (k slotId)) :
    SeatClimbs calls i s order held high u ((lockSlot event cmd).bind k) := by
  have hnone : ∀ slotId, SeatClimbs calls i s order held high u (k slotId) := by
    intro slotId
    simpa using rest u slotId [] hu (by simp)
  rw [lockSlot]
  split
  · simp only [Program.bind_eq, Program.bind_assoc]
    refine .require fun slot _ => ?_
    have hslots : ∀ v, (relies calls).rel i u v → v.slotOf slot cmd.eventId =
      s.slotOf slot cmd.eventId := by
      intro v hv
      rw [Db.slotOf, Db.slotOf, hv.1.slots, hu.slots]
    refine .selectForUpdate (if (s.slotOf slot cmd.eventId).isSome then [.slot slot] else [])
      (fun v hv => .inr (by rw [hslots v hv])) ?_ fun v hv => .refuseWhen fun _ => ?_
    · split
      · next hfound =>
        refine rises_singleton (fun g hg => ?_) fun hunder => by cases hunder
        have hg' : Lock.event (slotEvent s slot) = g := Option.some.inj hg
        rw [← hg', slotEvent_of_slotOf hfound]
        exact hheld
      · exact rises_nil
    · rw [hslots v hv]
      refine rest v (some slot) _ (hu.trans hv.1) fun k hk => ?_
      split at hk
      · exact ⟨slot, List.mem_singleton.mp hk⟩
      · cases hk
  · exact hnone _

theorem climbs_recordAudit {row : AuditRow} {k : Unit → Tx α} (hu : Still s u)
    (rest : ∀ v, Still s v → SeatClimbs calls i s order held high v (k ())) :
    SeatClimbs calls i s order held high u ((recordAudit row).bind k) := by
  refine .update [] (fun v _ => .inl rfl) rises_nil fun v hv => ?_
  rw [List.append_nil, List.append_nil]
  exact rest _ ((hu.trans hv.1).trans ⟨rfl, rfl⟩)

theorem climbs_armLeadRequest {eventId : Uuid} {trigger : LeadRule → Bool} {k : Unit → Tx α}
    (hu : Still s u) (rest : ∀ v locks, Still s v →
      SeatClimbs calls i s order (held ++ locks) (high ++ [.leadRequest eventId])
        v (k ())) :
    SeatClimbs calls i s order held high u
      ((armLeadRequest env eventId trigger).bind k) := by
  refine .update [.leadRequest eventId] (fun v _ => ?_)
    (rises_of_not_counts (by simp [LockOrder.counts, seatOrder, rowLock])
      (by simp [seatOrder, lockedUnder]))
    fun v hv => rest _ _ ((hu.trans hv.1).trans ?_)
  · split
    · exact .inr rfl
    · exact .inl rfl
  · split
    · exact ⟨rfl, rfl⟩
    · exact .refl v

theorem climbs_ticketWindow {draw : Draw} {cmd : RegisterCommand} {k : Unit → Tx α} (hu : Still s u)
    (rest : ∀ v, Still s v → SeatClimbs calls i s order held high v (k ())) :
    SeatClimbs calls i s order held high u ((ticketWindow draw cmd).bind k) := by
  rw [ticketWindow]
  split
  · exact rest u hu
  · simp only [Program.bind_eq, Program.bind_assoc]
    exact .select fun v hv => .require fun _ _ => .refuseWhen fun _ => rest v (hu.trans hv.1)

theorem climbs_insertRegistration {r : Registration} {k : Unit → Tx α} (hu : Still s u)
    (rest : ∀ v, Still s v → SeatClimbs calls i s order
      (held ++ [.registration r.id, .barcode r.barcode])
      (high ++ [.registration r.id, .barcode r.barcode]) v (k ())) :
    SeatClimbs calls i s order held high u
      ((insertRegistration env r).bind k) := by
  refine .writes [.registration r.id, .barcode r.barcode] (fun v _ => .inr rfl)
    (rises_of_not_counts (by simp [LockOrder.counts, seatOrder, insertsRow, isBarcode])
      (by simp [seatOrder, lockedUnder])) fun v hv => ?_
  cases hfits : insertable v env r with
  | true =>
    simp only [hfits, if_true, Program.bind]
    exact rest _ ((hu.trans hv.1).trans ⟨rfl, rfl⟩)
  | false =>
    simp only [hfits, Bool.false_eq_true, if_false, Program.bind]
    exact .refuse

theorem climbs_armAfterSub {events : Db → Uuid → Bool} {eventId : Uuid} {k : Unit → Tx α}
    (hu : Still s u) (horder : RowOrder s order)
    (hevents : ∀ v, (relies calls).rel i u v → ∀ e, events v e = (e == eventId))
    (habove : ∀ l ∈ armedLocks s eventId, l ∈ held ∨
      ∀ k ∈ high, (seatOrder s order).Waited k → order k < order l)
    (rest : ∀ v, Still s v → SeatClimbs calls i s order
      (held ++ armedLocks s eventId) (high ++ armedLocks s eventId) v (k ())) :
    SeatClimbs calls i s order held high u
      ((armAfterSub env events).bind k) := by
  have hlocks : ∀ v, (relies calls).rel i u v →
      (v.mails.rows.filter (afterSubOf (events v))).map (fun m => Lock.mail m.id) =
        armedLocks s eventId := fun v hv => armedLocks_eq (hu.trans hv.1) (hevents v hv)
  refine .update (armedLocks s eventId) (fun v hv => .inr (hlocks v hv)) (rises_armed horder habove)
    fun v hv => ?_
  rw [hlocks v hv]
  exact rest _ ((hu.trans hv.1).trans ⟨rfl, mailKeys_modify _ _ v.mails⟩)

/-- The end of the register head, the same whether or not the row was born open. -/
theorem climbs_registered {row : Registration} {cmd : RegisterCommand} {sale : Bool}
    {k : Registration → Tx α} (hu : Still s u) (hholds : Holds s arms passed held)
    (hwithin : Within s arms passed high)
    (rest : ∀ v held' high', Still s v → Holds s arms passed held' → Within s arms passed high' →
      SeatClimbs calls i s order held' high' v (k row)) :
    SeatClimbs calls i s order held high u
      ((Program.onlyIf (!cmd.leadRuleSkip) (armLeadRequest env cmd.eventId
        (fun lr => lr.onCreate || lr.onConfirm))).bind fun _ =>
          (recordAudit (auditRow "registration_created" cmd.actor "registration" (some row.id)
            (.registrationCreated cmd.eventId cmd.email row.state sale))).bind fun _ =>
              (Program.done row).bind k) := by
  refine .onlyIf (fun _ => climbs_armLeadRequest hu fun v locks hv => ?_) fun _ => ?_
  · refine climbs_recordAudit hv fun v' hv' => rest v' _ _ hv' (hholds.more locks) ?_
    exact hwithin.more (by simp [rowLock])
  · exact climbs_recordAudit hu fun v hv => rest v _ _ hv hholds hwithin

/-- A row born open arms the schedulers of its event, which rank above the event. -/
theorem climbs_armBorn {row : Registration} {eventId : Uuid} {k : Unit → Tx α} (hu : Still s u)
    (horder : RowOrder s order) (hstate : (row.state == .open) = arms)
    (hholds : Holds s arms passed held) (hwithin : Within s arms (passed ++ [eventId]) high)
    (hevent : Lock.event eventId ∈ held)
    (habove : eventId ∈ passed ∨ ∀ m ∈ high, (seatOrder s order).Waited m →
      order m ≤ order (.event eventId))
    (rest : ∀ v held' high', Still s v → Holds s arms (passed ++ [eventId]) held' →
      Within s arms (passed ++ [eventId]) high' →
      SeatClimbs calls i s order held' high' v (k ())) :
    SeatClimbs calls i s order held high u
      ((Program.onlyIf (row.state == .open)
        (armAfterSub env (fun _ e => e == eventId))).bind k) := by
  have hevents : ∀ e ∈ passed ++ [eventId], Lock.event e ∈ held := by
    intro e he
    rcases List.mem_append.mp he with hold | hnew
    · exact hholds.events e hold
    · exact List.mem_singleton.mp hnew ▸ hevent
  refine .onlyIf (fun hopen => ?_) fun hclosed => ?_
  · rw [hstate] at hopen
    refine climbs_armAfterSub hu horder (fun _ _ _ => rfl) (fun l hl => ?_) fun v hv => ?_
    · rcases habove with hpassed | habove
      · exact .inl (hholds.mails hopen _ hpassed hl)
      · exact .inr fun m hm hwaited =>
          (habove m hm hwaited).trans_lt (horder.event_mail _ l hl)
    · refine rest v _ _ hv ⟨fun e he => List.mem_append_left _ (hevents e he), fun _ e he => ?_⟩
        (hwithin.armed hopen (by simp))
      rcases List.mem_append.mp he with hold | hnew
      · exact List.subset_append_of_subset_left _ (hholds.mails hopen e hold)
      · rw [List.mem_singleton.mp hnew]
        exact List.subset_append_right _ _
  · rw [hstate] at hclosed
    exact rest u _ _ hu ⟨hevents, fun hopen => by rw [hclosed] at hopen; cases hopen⟩ hwithin

/-- The register head locks its event above those passed, and everything else under it. -/
theorem climbs_registerCore {draw : Draw} {cmd : RegisterCommand} {link : Option SaleLink}
    {k : Registration → Tx α} (hu : Still s u) (horder : RowOrder s order)
    (harms : arms = (((link.map SaleLink.initialState).getD .open) == .open))
    (hholds : Holds s arms passed held) (hwithin : Within s arms passed high)
    (habove : cmd.eventId ∈ passed ∨ Above s order arms passed cmd.eventId)
    (rest : ∀ v row held' high', Still s v → Holds s arms (passed ++ [cmd.eventId]) held' →
      Within s arms (passed ++ [cmd.eventId]) high' →
      SeatClimbs calls i s order held' high' v (k row)) :
    SeatClimbs calls i s order held high u ((registerCore env draw cmd link).bind k) := by
  simp only [registerCore, Program.bind_eq, Program.bind_assoc]
  refine climbs_lockEvent ?_ fun v₁ event hv₁ => .refuseWhen fun _ => ?_
  · exact habove.imp (hholds.events _) fun h k hk hwaited => hwithin.lt_event horder h hk hwaited
  refine climbs_lockSlot (hu.trans hv₁.1) (List.mem_append_right _ (List.mem_singleton_self _))
    fun v₂ slotId slots hv₂ hslots => ?_
  have hholds₂ := ((hholds.more [.event cmd.eventId]).more slots)
  have hwithin₂ := (hwithin.event cmd.eventId).more fun k hk _ => .inr (hslots k hk)
  have hevent₂ : Lock.event cmd.eventId ∈ held ++ [.event cmd.eventId] ++ slots :=
    List.mem_append_left _ (List.mem_append_right _ (List.mem_singleton_self _))
  have hbelow₂ : Above s order arms passed cmd.eventId →
      ∀ m ∈ high ++ [.event cmd.eventId] ++ slots,
      (seatOrder s order).Waited m → order m ≤ order (.event cmd.eventId) := by
    intro h m hm hwaited
    rcases List.mem_append.mp hm with hm | hslot
    · rcases List.mem_append.mp hm with hold | hevent
      · exact (hwithin.lt_event horder h hold hwaited).le
      · rw [List.mem_singleton.mp hevent]
    · obtain ⟨slot, rfl⟩ := hslots m hslot
      exact absurd hwaited waited_not_slot
  generalize held ++ [.event cmd.eventId] ++ slots = held₂ at hholds₂ hevent₂ ⊢
  generalize high ++ [.event cmd.eventId] ++ slots = high₂ at hwithin₂ hbelow₂ ⊢
  refine climbs_ticketWindow hv₂ fun v₃ hv₃ => .select fun v₄ hv₄ => .refuseWhen fun _ => ?_
  refine .select fun v₅ hv₅ => climbs_insertRegistration ((hv₃.trans hv₄.1).trans hv₅.1)
    fun v₆ hv₆ => ?_
  have hstate : ((bornRow env draw cmd link event slotId v₅.orgAxis).state == .open) = arms :=
    harms.symm
  generalize bornRow env draw cmd link event slotId v₅.orgAxis = row at hstate ⊢
  have hwithin₆ : Within s arms (passed ++ [cmd.eventId])
      (high₂ ++ [.registration row.id, .barcode row.barcode]) :=
    hwithin₂.more (by simp [rowLock])
  have hbelow₆ : Above s order arms passed cmd.eventId →
      ∀ m ∈ high₂ ++ [.registration row.id, .barcode row.barcode],
        (seatOrder s order).Waited m → order m ≤ order (.event cmd.eventId) := by
    intro h m hm hwaited
    rcases List.mem_append.mp hm with hold | hnew
    · exact hbelow₂ h m hold hwaited
    · rcases List.mem_pair.mp hnew with rfl | rfl
      · exact (horder.registration_event _ _).le
      · cases hwaited.1
  exact climbs_armBorn hv₆ horder hstate (hholds₂.more _) hwithin₆ (List.mem_append_left _ hevent₂)
    (habove.imp_right hbelow₆) fun v held' high' hv hholds' hwithin' =>
      climbs_registered hv hholds' hwithin' fun v' => rest v' row

theorem climbs_mint {link : SaleLink} {touched : ℕ} {specs : List RegisterCommand} {k : ℕ → Tx α}
    (hu : Still s u) (horder : RowOrder s order) (harms : arms = (link.initialState == .open))
    (hholds : Holds s arms passed held) (hwithin : Within s arms passed high)
    (hupward : ∀ before e after, specs.map (·.eventId) = before ++ e :: after →
      e ∉ passed ++ before → Above s order arms (passed ++ before) e)
    (rest : ∀ v n held' high',
      SeatClimbs calls i s order held' high' v (k n)) :
    SeatClimbs calls i s order held high u
      ((mint env link touched specs).bind k) := by
  induction specs generalizing passed held high u touched with
  | nil => exact rest _ _ _ _
  | cons spec specs ih =>
    rw [mint, Program.bind_eq, Program.bind_assoc]
    have habove : spec.eventId ∈ passed ∨ Above s order arms passed spec.eventId := by
      by_cases hpassed : spec.eventId ∈ passed
      · exact .inl hpassed
      · have hfirst := hupward [] spec.eventId (specs.map (·.eventId)) rfl
          (by rwa [List.append_nil])
        rw [List.append_nil] at hfirst
        exact .inr hfirst
    refine climbs_registerCore hu horder harms hholds hwithin habove
      fun v row held' high' hv hholds' hwithin' =>
        ih hv hholds' hwithin' fun before e after hsplit he => ?_
    rw [List.append_assoc] at he ⊢
    exact hupward (spec.eventId :: before) e after (by rw [List.map_cons, hsplit]; rfl) he

theorem light_updateRegistrations (p : Registration → Bool) (f : Update Registration) :
    LocksOnly (fun l => (seatOrder s order).light l = true) (updateRegistrations p f) := by
  refine locksOnly_update fun v l hl => ?_
  obtain ⟨r, -, rfl⟩ := List.mem_map.mp hl
  rfl

theorem light_armAfterSub (events : Db → Uuid → Bool) :
    LocksOnly (fun l => (seatOrder s order).light l = true) (armAfterSub env events) := by
  refine locksOnly_update fun v l hl => ?_
  obtain ⟨m, -, rfl⟩ := List.mem_map.mp hl
  rfl

theorem light_latchBooths (lineIds : List Uuid) :
    LocksOnly (fun l => (seatOrder s order).light l = true) (latchBooths lineIds) := by
  rw [latchBooths]
  split
  · trivial
  · refine locksOnly_update fun v l hl => ?_
    obtain ⟨b, -, rfl⟩ := List.mem_map.mp hl
    rfl

/-- A heal locks no event and no slot. -/
theorem light_healOrder (orderId : Uuid) (free : Bool) (actor : Option Uuid) :
    LocksOnly (fun l => (seatOrder s order).light l = true) (healOrder env orderId free actor) := by
  rw [healOrder]
  split
  · exact locksOnly_bind (light_updateRegistrations _ _) fun _ =>
      locksOnly_bind (light_armAfterSub _) fun _ => trivial
  · exact locksOnly_bind (light_updateRegistrations _ _) fun _ => trivial

/-- The order's active rows, by what never changes of them. -/
def keyOfOrder (orderId : Uuid) (k : RowKey) : Bool := k.2.2.1 == some orderId && k.2.2.2

theorem locks_activeOfOrder (orderId : Uuid) (v : Db) :
    (v.registrations.rows.filter (activeOfOrder orderId)).map (fun r => Lock.registration r.id) =
      (((seatOrder s order).keys v).filter (keyOfOrder orderId)).map (seatOrder s order).lock := by
  rw [seatOrder, List.filter_map, List.map_map]
  rfl

/-- A session that holds no row may sweep the order's active rows. -/
theorem climbs_activeOfOrder {orderId : Uuid} {f : Update Registration} {k : ℕ → Tx α}
    (hi : Delivers (calls i)) (hlight : ∀ l ∈ high, (seatOrder s order).light l = true)
    (hbare : ∀ l ∈ high, ¬ (seatOrder s order).Waited l)
    (rest : ∀ n v held' high', SeatClimbs calls i s order held' high' v (k n)) :
    CalmClimbs calls i s order held high u
      ((updateRegistrations (activeOfOrder orderId) f).bind k) :=
  .sweepUpdate hi (keyOfOrder orderId) (locks_activeOfOrder orderId) hlight hbare
    fun _ _ _ _ => rest _ _ _ _

theorem climbs_seam (c : SeamCall) (hcall : calls i = .seam c) (hu : Still s u)
    (horder : RowOrder s order) (hmint : ∀ grandTotal specs, c.verb = .confirmed grandTotal specs →
      Upward s order (grandTotalIsZero grandTotal) (specs.map (·.eventId))) :
    CalmClimbs calls i s order [] [] u (Call.seam c).program := by
  have hi : Delivers (calls i) := by
    rw [hcall]
    trivial
  have hbody : ∀ v, Still s v → CalmClimbs calls i s order
      [.inbox c.key.consumer c.key.externalId] [.inbox c.key.consumer c.key.externalId] v
      (c.body.bind fun outcome => .done (Answer.seam outcome)) := by
    intro v hv
    have hlight : ∀ l ∈ [Lock.inbox c.key.consumer c.key.externalId],
        (seatOrder s order).light l = true := by simp [seatOrder, lightLock]
    have hbare : ∀ l ∈ [Lock.inbox c.key.consumer c.key.externalId],
        ¬ (seatOrder s order).Waited l := by simp [LockOrder.Waited, seatOrder, rowLock]
    rw [SeamCall.body]
    cases hverb : c.verb with
    | confirmed grandTotal specs =>
      simp only [mintOrHeal, Program.bind_eq, Program.bind_assoc]
      refine .select fun v' hv' => ?_
      split
      · rw [mintOrder, Program.bind_eq, Program.bind_assoc]
        have harms : grandTotalIsZero grandTotal =
            ((bornLink c.orderId (grandTotalIsZero grandTotal)).initialState == .open) := by
          cases grandTotalIsZero grandTotal <;> rfl
        have hholds : Holds s (grandTotalIsZero grandTotal) []
            [.inbox c.key.consumer c.key.externalId] := ⟨by simp, by simp⟩
        refine (climbs_mint (hv.trans hv'.1) horder harms hholds (by simp [Within, rowLock])
          (fun before e after hsplit he => ?_) fun _ _ _ _ => .noteAfter .done).calmer
        exact hmint grandTotal specs hverb before e after hsplit he
      · cases hfree : grandTotalIsZero grandTotal with
        | true =>
          have hturns : Turns (calls i) := by
            rw [hcall, Turns, hverb]
            exact hfree
          exact .light hturns hlight (locksOnly_bind (light_healOrder _ _ _) fun _ => trivial)
        | false =>
          rw [healOrder, if_neg Bool.false_ne_true, Program.bind_eq, Program.bind_assoc]
          exact climbs_activeOfOrder hi hlight hbare fun _ _ _ _ => .note .done
    | cancelled =>
      simp only [cancelOrder, Program.bind_eq, Program.bind_assoc]
      exact climbs_activeOfOrder hi hlight hbare fun _ _ _ _ => .note .done
    | paid lineIds =>
      have hturns : Turns (calls i) := by
        rw [hcall, Turns, hverb]
        trivial
      have hpay : LocksOnly (fun l => (seatOrder s order).light l = true)
          (payOrder c.env c.orderId lineIds c.actor) :=
        locksOnly_bind (light_updateRegistrations _ _) fun _ =>
          locksOnly_bind (light_updateRegistrations _ _) fun _ =>
            locksOnly_bind (light_armAfterSub _) fun _ =>
              locksOnly_bind (light_latchBooths _) fun _ => trivial
      exact .light hturns hlight (locksOnly_bind hpay fun _ => trivial)
  rw [Call.program, c.program_eq]
  simp only [Program.bind_eq, Program.bind_assoc]
  refine .quietUpdate [.inbox c.key.consumer c.key.externalId] (fun _ _ => .inr rfl)
    (rises_of_not_counts (by simp [LockOrder.counts, seatOrder, rowLock])
      (by simp [seatOrder, lockedUnder])) (fun _ _ => rfl) fun v hv => ?_
  split
  · exact .done
  · exact hbody _ ((hu.trans hv.1).trans ⟨rfl, rfl⟩)

theorem climbs_register (cmd : RegisterCommand) (hu : Still s u) (horder : RowOrder s order) :
    SeatClimbs calls i s order [] [] u (Call.register env cmd).program := by
  have hholds : Holds s true [] [] := ⟨by simp, by simp⟩
  rw [Call.program, register, Program.bind_eq]
  exact climbs_registerCore hu horder rfl hholds (by simp [Within]) (.inr (by simp [Above]))
    fun _ _ _ _ _ _ _ => .done

/-- The end of a state verb, once its schedulers are armed. -/
theorem climbs_moved {before : Registration} {target : RegistrationState} {actor : Option Uuid}
    (hu : Still s u) : SeatClimbs calls i s order held high u
      ((Program.onlyIf (before.active && (target == .open || target == .done) &&
        before.state != target)
        (armLeadRequest env before.eventId
          (fun lr => if target == .done then lr.onDone else lr.onConfirm))).bind fun _ =>
        (Program.onlyIf (before.state != target)
          (recordAudit (auditRow "registration_state_changed" actor "registration"
            (some before.id) (.stateChanged before.state target)))).bind fun _ =>
          .done (Answer.moved before.state target before.active)) := by
  have haudit : ∀ v held' high', Still s v → SeatClimbs calls i s order held' high' v
      ((Program.onlyIf (before.state != target)
        (recordAudit (auditRow "registration_state_changed" actor "registration"
          (some before.id) (.stateChanged before.state target)))).bind fun _ =>
        .done (Answer.moved before.state target before.active)) := fun v held' high' hv =>
    .onlyIf (fun _ => climbs_recordAudit hv fun _ _ => .done) fun _ => .done
  exact .onlyIf (fun _ => climbs_armLeadRequest hu fun v _ hv => haudit v _ _ hv)
    fun _ => haudit u _ _ hu

/-- The row a state verb waits for stays there, on the event it was found on. -/
theorem found_relied {registrationId eventId : Uuid} {t t' : Db}
    (hi : watched (calls i) = some registrationId) (htt' : (relies calls).rel i t t')
    (h : ∃ r, t.registration? registrationId = some r ∧ r.eventId = eventId) :
    ∃ r, t'.registration? registrationId = some r ∧ r.eventId = eventId := by
  obtain ⟨r, hr, hevent⟩ := h
  obtain ⟨r', hr', hevent'⟩ := htt'.2 registrationId hi r hr
  exact ⟨r', hr', hevent'.trans hevent⟩

/-- A state verb locks its row, then the row's event if it takes a seat, then its schedulers. -/
theorem climbs_transition {registrationId : Uuid} {target : RegistrationState} {actor : Option Uuid}
    (hi : watched (calls i) = some registrationId) (hu : Still s u) (horder : RowOrder s order) :
    SeatClimbs calls i s order [] [] u
      (Call.transition env registrationId target actor).program := by
  simp only [Call.program, transition, moveState, Program.bind_eq, Program.bind_assoc]
  refine .update [.registration registrationId] (fun v _ => ?_)
    (rises_singleton (fun g hg => by cases hg) fun _ => .inr fun k hk => absurd hk List.not_mem_nil)
    fun v hv => .require fun before hbefore => ?_
  · split
    · exact .inr rfl
    · exact .inl rfl
  obtain ⟨-, rfl⟩ := registration?_mem hbefore
  rw [Table.modify_matched_self]
  change Climbs _ _ _ _ _ _ _ (v.moved env.now before.id target) _
  have hv' : Still s (v.moved env.now before.id target) := (hu.trans hv.1).trans ⟨rfl, rfl⟩
  have hfound : ∃ r, (v.moved env.now before.id target).registration? before.id = some r ∧
      r.eventId = before.eventId := ⟨_, registration?_moved hbefore env.now target, rfl⟩
  generalize v.moved env.now before.id target = v' at hv' hfound ⊢
  refine .onlyIf (fun hseat => ?_) fun hseat => ?_
  · simp only [seatHead, Program.bind_eq, Program.bind_assoc]
    refine .select fun v₁ hv₁ => .require fun r hr => ?_
    have hfound₁ := found_relied hi hv₁ hfound
    have hevent : r.eventId = before.eventId := by
      obtain ⟨r', hr', hevent'⟩ := hfound₁
      rw [hr] at hr'
      rw [Option.some.inj hr']
      exact hevent'
    rw [hevent]
    refine climbs_lockEvent (.inr fun k hk _ => ?_) fun v₂ event hv₂ => ?_
    · rw [List.nil_append, List.mem_singleton] at hk
      exact hk ▸ horder.registration_event _ _
    refine .select fun v₃ hv₃ => .refuseWhen fun _ => ?_
    have hfound₃ := found_relied hi hv₃ (found_relied hi hv₂ hfound₁)
    have hv₃' : Still s v₃ := ((hv'.trans hv₁.1).trans hv₂.1).trans hv₃.1
    simp only [settleMove, Program.bind_eq, Program.bind_assoc]
    have hevents : ∀ v₄, (relies calls).rel i v₃ v₄ → ∀ e,
        (v₄.registration? before.id).any (·.eventId == e) = (e == before.eventId) := by
      intro v₄ hv₄ e
      obtain ⟨r', hr', hevent'⟩ := found_relied hi hv₄ hfound₃
      rw [hr', Option.any_some, hevent', BEq.comm]
    refine .onlyIf (fun _ => climbs_armAfterSub hv₃' horder hevents (fun l hl => .inr ?_)
      fun v₅ hv₅ => climbs_moved hv₅) fun _ => climbs_moved hv₃'
    intro k hk _
    have hlast := horder.event_mail _ l hl
    simp only [List.nil_append, List.cons_append, List.mem_cons, List.not_mem_nil, or_false] at hk
    rcases hk with rfl | rfl
    · exact (horder.registration_event _ _).trans hlast
    · exact hlast
  · simp only [settleMove, Program.bind_eq, Program.bind_assoc]
    refine .onlyIf (fun harms => ?_) fun _ => climbs_moved hv'
    -- Entering open from outside takes a seat.
    simp only [Bool.and_eq_true] at harms
    simp [takesSeat, harms.1.1, harms.1.2, harms.2] at hseat

end climbs

abbrev LockWorld (ι : Type) := TransactionInterleavings.World ι Db Lock AuditRow EventError Answer

/-- The sessions after a schedule of their steps, each lock a step of its own. -/
def lockRace {ι : Type} [Fintype ι] [DecidableEq ι] (calls : ι → Call) (s : Db)
    (schedule : List ι) : LockWorld ι :=
  schedule.foldl (rowStep Db.absorb) (start s fun i => (calls i).program)

/-- Session `i` waits for a row that session `j` has locked. -/
def WaitsForRow {ι : Type} (w : LockWorld ι) (i j : ι) : Prop := Waits waitsForRow w i j

/-- A mint names its events upward. -/
def MintsUpward (s : Db) (order : Lock → ℕ) : Call → Prop
  | .seam c => ∀ grandTotal specs, c.verb = .confirmed grandTotal specs →
    Upward s order (grandTotalIsZero grandTotal) (specs.map (·.eventId))
  | .register _ _ | .transition _ _ _ _ => True

/-- Where it has locked no event, the session asks for no row below one it has locked. -/
def AsksUpward {ι : Type} (order : Lock → ℕ) (w : LockWorld ι) (i : ι) : Prop :=
  (∀ k ∈ (w.sessions i).locks, lightLock k = true) → ∀ l ∈ asks (w.sessions i) w.committed,
    waitsForRow (wants (w.sessions i) w.committed) l = true →
      ∀ k ∈ (w.sessions i).locks, rowLock k = true → order k < order l

/-- The registrations rank as they are stored. -/
def RanksAsStored (order : Lock → ℕ) (t : Db) : Prop :=
  t.registrations.rows.Pairwise fun r r' => order (.registration r.id) < order (.registration r'.id)

theorem delivers_of_turns {c : Call} (h : Turns c) : Delivers c := by
  cases c with
  | seam c => trivial
  | register env cmd => exact h
  | transition env registrationId target actor => exact h

section run

variable {ι : Type} [Fintype ι] [DecidableEq ι] {calls : ι → Call} {s : Db} {order : Lock → ℕ}

theorem ordered_lockRace (horder : RowOrder s order) (hmints : ∀ i, MintsUpward s order (calls i))
    (schedule : List ι) : Ordered (seatOrder s order) (relies calls) (fun i => Delivers (calls i))
      (fun i => Turns (calls i)) (lockRace calls s schedule) := by
  refine ordered_run (fun i => writes_program i) (fun i => ?_) (fun i t n => ?_) (fun n t => ?_)
    schedule
  · have hclimbs : ∀ c, calls i = c → CalmClimbs calls i s order [] [] s c.program := by
      intro c hcall
      have hmint := hmints i
      rw [hcall] at hmint
      cases c with
      | register env cmd => exact (climbs_register cmd (.refl s) horder).calmer
      | transition env registrationId target actor =>
        exact (climbs_transition (by rw [hcall, watched]) (.refl s) horder).calmer
      | seam c => exact climbs_seam c hcall (.refl s) horder hmint
    exact hclimbs _ rfl
  · exact ⟨⟨rfl, rfl⟩, fun id _ r hr => ⟨r, hr, rfl⟩⟩
  · rfl

end run

section sample

/-- Two events without a limit. -/
def twoGigs : Db := { openGig with
  events := openGig.events.push { gig with id := 2, seatsLimited := false, seatsMax := 0 } }

def annAt (eventId : Uuid) : RegisterCommand := { ann with eventId := eventId }

/-- A confirmed order of one seat at each of the events. -/
def orderOf (orderId : Uuid) (deliveryId : String) (events : List Uuid) : Call :=
  .seam ⟨.counting (10 * orderId), "events", some deliveryId, orderId, none,
    .confirmed "10.00" (events.map annAt)⟩

/-- An order to pay that owns two drafts. -/
def twoDrafts : Db := (orderOf 3 "c" [1, 2]).apply twoGigs

/-- Two mints over the same events in the same order, and a cancellation and a heal of the
drafts. -/
def sameOrder : Fin 4 → Call
  | 0 => orderOf 1 "a" [1, 2]
  | 1 => orderOf 2 "b" [1, 2]
  | 2 => .seam ⟨.counting 40, "events", some "d", 3, none, .cancelled⟩
  | 3 => orderOf 3 "e" [1, 2]

/-- The second mint waits for the first at event 1, and the heal for the cancellation at the first
draft. -/
def oneBehind : List (Fin 4) :=
  [0, 0, 0, 0, 1, 1, 1, 2, 2, 2, 3, 3, 3]

/-- Few registrations, as they are stored, and then the events. -/
def byEvent : Lock → ℕ
  | .registration r => min r 999
  | .event e => e + 1000
  | _ => 0

instance {ι : Type} {order : Lock → ℕ} {w : LockWorld ι} {i : ι} :
    Decidable (AsksUpward order w i) :=
  inferInstanceAs (Decidable (_ → ∀ l ∈ asks (w.sessions i) w.committed, _))

instance {order : Lock → ℕ} {t : Db} : Decidable (RanksAsStored order t) :=
  inferInstanceAs (Decidable (List.Pairwise _ _))

theorem rowOrder_byEvent : RowOrder twoDrafts byEvent where
  registration_event r e := by
    simp only [byEvent]
    omega
  event_mail _ _ hl := absurd hl List.not_mem_nil
  mails _ := .nil

theorem upward_byEvent (arms : Bool) : Upward twoDrafts byEvent arms [1, 2] := by
  intro before e after hsplit _ e' he'
  refine ⟨?_, fun _ l hl => absurd hl List.not_mem_nil⟩
  rcases before with _ | ⟨a, _ | ⟨b, before⟩⟩
  · cases he'
  · obtain ⟨rfl, rfl, -⟩ : 1 = a ∧ 2 = e ∧ [] = after := by simpa using hsplit
    rw [List.mem_singleton.mp he']
    decide
  · simp at hsplit

def crossedOrders : Fin 2 → Call
  | 0 => orderOf 1 "a" [1, 2]
  | 1 => orderOf 2 "b" [2, 1]

/-- Each mints the seat of its first event, then each comes to the lock of its second. -/
def crossing : List (Fin 2) :=
  List.replicate 5 0 ++ List.replicate 5 1 ++ List.replicate 7 0 ++ List.replicate 7 1

end sample

end BackboneEvents.SeatLocks
