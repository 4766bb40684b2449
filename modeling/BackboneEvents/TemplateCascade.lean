import BackboneEvents.SchedulerService

/-!
# The template cascade

A deleted template takes its scheduler rows and its type-level rows. Receipts and slot
children reference their scheduler row, by foreign keys that do not cascade.
-/
namespace BackboneEvents
open ConstrainedTables TransactionPrograms

/-- A scheduler row's child for one slot. -/
structure MailSlot where
  id : Uuid
  schedulerId : Uuid
  slotId : Uuid
  deriving DecidableEq, Repr

/-- A template row of an event type. -/
structure TypeMail where
  id : Uuid
  eventTypeId : Uuid
  intervalNbr : ℕ
  intervalUnit : IntervalUnit
  intervalKind : IntervalKind
  notificationChannel : NotificationChannel
  templateRef : Option Uuid
  templateKind : Option String
  deriving DecidableEq, Repr

instance : Keyed MailSlot where
  clash a b := a.id == b.id || (a.schedulerId == b.schedulerId && a.slotId == b.slotId)
  clash_self _ := by simp
  clash_comm a b := by
    rw [@BEq.comm _ _ _ a.id, @BEq.comm _ _ _ a.schedulerId, @BEq.comm _ _ _ a.slotId]

instance : Keyed TypeMail where
  clash a b := a.id == b.id
  clash_self _ := by simp
  clash_comm _ _ := BEq.comm

/-- The database with the tables that only the cascade touches. -/
structure TemplateDb extends Db where
  mailSlots : Table MailSlot
  typeMails : Table TypeMail
  deriving DecidableEq

/-- `template_ref = $1 AND template_kind = $2`. -/
def Mail.ofTemplate (templateKind : String) (templateRef : Uuid) (m : Mail) : Bool :=
  m.templateRef == some templateRef && m.templateKind == some templateKind

def TypeMail.ofTemplate (templateKind : String) (templateRef : Uuid) (tm : TypeMail) : Bool :=
  tm.templateRef == some templateRef && tm.templateKind == some templateKind

namespace TemplateDb

/-- The scheduler row is one of the pair's. -/
def dependent (s : TemplateDb) (templateKind : String) (templateRef schedulerId : Uuid) : Bool :=
  s.mails.rows.any fun m => m.ofTemplate templateKind templateRef && m.id == schedulerId

/-- A receipt or a slot child references a scheduler row of the pair. -/
def referenced (s : TemplateDb) (templateKind : String) (templateRef : Uuid) : Bool :=
  (s.mailRegistrations.rows.any fun x => s.dependent templateKind templateRef x.schedulerId) ||
    s.mailSlots.rows.any fun x => s.dependent templateKind templateRef x.schedulerId

def absorb (s : TemplateDb) (row : AuditRow) : TemplateDb := { s with toDb := s.toDb.absorb row }

end TemplateDb

abbrev TemplateTx := Program TemplateDb Lock AuditRow EventError

/-- A foreign key is checked at the end of the delete; the audit row goes to the pool. -/
def cascadeDeleteTemplateDependents (templateKind : String) (templateRef : Uuid)
    (actor : Option Uuid) : TemplateTx (ℕ × ℕ) := do
  let (mails, held) ← .update
    (fun v => (v.mails.rows.filter (Mail.ofTemplate templateKind templateRef)).map
      fun m => .mail m.id)
    (fun v s => { s with
      mails := s.mails.remove (v.mails.matched (Mail.ofTemplate templateKind templateRef)) })
    (fun v : TemplateDb => ((v.mails.rows.filter (Mail.ofTemplate templateKind templateRef)).length,
      v.referenced templateKind templateRef))
  Program.refuseWhen held (.database "mails: foreign key violated")
  let typeMails ← .update (fun _ => [])
    (fun v s => { s with
      typeMails := s.typeMails.remove
        (v.typeMails.matched (TypeMail.ofTemplate templateKind templateRef)) })
    (fun v : TemplateDb =>
      (v.typeMails.rows.filter (TypeMail.ofTemplate templateKind templateRef)).length)
  .note (auditRow "template_cascade" actor "mail_scheduler" (some templateRef)
    (.templateCascade templateKind mails typeMails)) (return (mails, typeMails))

def onTemplateDeleted (templateKind : String) (templateRef : Uuid) (actor : Option Uuid)
    (s : TemplateDb) : Except EventError (ℕ × ℕ) × TemplateDb :=
  if (GrandTotal.trim templateKind.toList).isEmpty then
    (.error (.validation "template cascade requires a template_kind"), s)
  else
    (cascadeDeleteTemplateDependents templateKind templateRef actor).execute TemplateDb.absorb s

section Effect

variable (s : TemplateDb) (templateKind : String) (templateRef : Uuid) (actor : Option Uuid)

/-- The scheduler rows and the type-level rows of the pair. -/
def TemplateDb.dependents : ℕ × ℕ :=
  ((s.mails.rows.filter (Mail.ofTemplate templateKind templateRef)).length,
    (s.typeMails.rows.filter (TypeMail.ofTemplate templateKind templateRef)).length)

/-- The state without the pair: its scheduler rows, their receipts and slot children, and its
type-level rows. -/
def TemplateDb.without : TemplateDb :=
  { s with
    mails := s.mails.remove (Mail.ofTemplate templateKind templateRef)
    mailRegistrations :=
      s.mailRegistrations.remove fun x => s.dependent templateKind templateRef x.schedulerId
    mailSlots := s.mailSlots.remove fun x => s.dependent templateKind templateRef x.schedulerId
    typeMails := s.typeMails.remove (TypeMail.ofTemplate templateKind templateRef) }

def TemplateDb.cascadeRow : AuditRow :=
  auditRow "template_cascade" actor "mail_scheduler" (some templateRef)
    (.templateCascade templateKind (s.dependents templateKind templateRef).1
      (s.dependents templateKind templateRef).2)

variable {s templateKind templateRef actor}

theorem without_of_unreferenced (h : s.referenced templateKind templateRef = false) :
    s.without templateKind templateRef = { s with
      mails := s.mails.remove (Mail.ofTemplate templateKind templateRef)
      typeMails := s.typeMails.remove (TypeMail.ofTemplate templateKind templateRef) } := by
  obtain ⟨hreceipts, hslots⟩ := Bool.or_eq_false_iff.mp h
  have hreceipts' : s.mailRegistrations.remove
      (fun x => s.dependent templateKind templateRef x.schedulerId) = s.mailRegistrations :=
    Table.remove_eq_self fun x hx => by simpa using List.any_eq_false.mp hreceipts x hx
  have hslots' : s.mailSlots.remove
      (fun x => s.dependent templateKind templateRef x.schedulerId) = s.mailSlots :=
    Table.remove_eq_self fun x hx => by simpa using List.any_eq_false.mp hslots x hx
  rw [TemplateDb.without, hreceipts', hslots']

/-- Where nothing references the rows of the pair, they go, and nothing else does. -/
theorem onTemplateDeleted_unreferenced (h : (GrandTotal.trim templateKind.toList).isEmpty = false)
    (hfree : s.referenced templateKind templateRef = false) :
    onTemplateDeleted templateKind templateRef actor s =
      (.ok (s.dependents templateKind templateRef),
        (s.without templateKind templateRef).absorb
          (s.cascadeRow templateKind templateRef actor)) := by
  rw [without_of_unreferenced hfree]
  simp [onTemplateDeleted, h, Program.execute, cascadeDeleteTemplateDependents, Program.update,
    Program.bind, Program.run, Program.notes, Program.notesAfter, Program.refuseWhen, hfree,
    TemplateDb.dependents, TemplateDb.cascadeRow]

/-- Where something does, the call fails and leaves the state as it was. -/
theorem onTemplateDeleted_referenced (h : (GrandTotal.trim templateKind.toList).isEmpty = false)
    (hheld : s.referenced templateKind templateRef = true) :
    onTemplateDeleted templateKind templateRef actor s =
      (.error (.database "mails: foreign key violated"), s) := by
  simp [onTemplateDeleted, h, Program.execute, cascadeDeleteTemplateDependents, Program.update,
    Program.bind, Program.notes, Program.refuseWhen, hheld]

/-- The call succeeds and takes exactly the pair, its receipts and its slot children. -/
def DeletesExactly (s : TemplateDb) (templateKind : String) (templateRef : Uuid) (actor : Option Uuid) :
    Prop :=
  onTemplateDeleted templateKind templateRef actor s =
    (.ok (s.dependents templateKind templateRef),
      (s.without templateKind templateRef).absorb (s.cascadeRow templateKind templateRef actor))

theorem deletesExactly_iff (h : (GrandTotal.trim templateKind.toList).isEmpty = false) :
    DeletesExactly s templateKind templateRef actor ↔
      s.referenced templateKind templateRef = false := by
  constructor
  · intro hexact
    cases hheld : s.referenced templateKind templateRef with
    | false => rfl
    | true =>
      rw [DeletesExactly, onTemplateDeleted_referenced h hheld] at hexact
      cases (Prod.mk.inj hexact).1
  · exact onTemplateDeleted_unreferenced h

end Effect

section Runs

variable {ι : Type} [DecidableEq ι]

/-- Passes and verbs over the database, and the cascade's further tables. -/
structure TemplateWorld (ι : Type) extends World ι where
  mailSlots : Table MailSlot
  typeMails : Table TypeMail

/-- A verb or a step of a pass, a slot child written, or a template deleted. -/
inductive TemplateAct (ι : Type) where
  | act (a : Act ι)
  | slotChild (x : MailSlot)
  | templateDeleted (templateKind : String) (templateRef : Uuid) (actor : Option Uuid)

namespace TemplateWorld

def store (w : TemplateWorld ι) : TemplateDb := ⟨w.db, w.mailSlots, w.typeMails⟩

def next (w : TemplateWorld ι) : TemplateAct ι → TemplateWorld ι
  | .act a => { w with toWorld := w.toWorld.next a }
  | .slotChild x =>
    if w.db.mails.rows.any (fun m => m.id == x.schedulerId) &&
        w.db.slots.rows.any (fun sl => sl.id == x.slotId) then
      { w with mailSlots := w.mailSlots.push x }
    else w
  | .templateDeleted templateKind templateRef actor =>
    let t := (onTemplateDeleted templateKind templateRef actor w.store).2
    { w with db := t.toDb, mailSlots := t.mailSlots, typeMails := t.typeMails }

end TemplateWorld

/-- In every state that a run reaches, deleting a template is total and exact if and only if no
receipt and no slot child references a scheduler row of the pair. -/
theorem cascade_exact_iff (w : TemplateWorld ι) (acts : List (TemplateAct ι))
    (templateKind : String) (templateRef : Uuid) (actor : Option Uuid)
    (hkind : (GrandTotal.trim templateKind.toList).isEmpty = false) :
    DeletesExactly (acts.foldl TemplateWorld.next w).store templateKind templateRef actor ↔
      (acts.foldl TemplateWorld.next w).store.referenced templateKind templateRef = false :=
  deletesExactly_iff hkind

/-- The notified gig, before its scheduler has run. -/
def noticeWorld : TemplateWorld (Fin 1) := ⟨World.start notice, .empty, .empty⟩

theorem cascade_exact_iff_notice : DeletesExactly noticeWorld.store "mail" 1 none :=
  (cascade_exact_iff noticeWorld [] "mail" 1 none (by decide)).mpr (by decide)

/-- The acts of a pass that queues the one receipt. -/
def noticePass : List (TemplateAct (Fin 1)) :=
  .act (.runDueSchedulers 0 .default) :: List.replicate 14 (.act (.turn 0 .accepting))

/-- Once its scheduler has run, the template's deletion fails on the receipt. -/
theorem notifiedTemplate_undeleted :
    ¬ DeletesExactly (noticePass.foldl TemplateWorld.next noticeWorld).store "mail" 1 none := by
  rw [deletesExactly_iff (by decide)]
  decide

end Runs

end BackboneEvents
