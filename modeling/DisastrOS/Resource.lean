import DisastrOS.Process

/-! The system calls on resources. -/
namespace DisastrOS
open BlockPool

/-- `Resource_alloc` -/
def resourceAlloc (t : ResourceTable) (id type : ℤ) : Option (ℕ × ResourceTable) :=
  match t.resource.alloc fun _ => { id := id, type := type, descriptors := .init } with
  | none => none
  | some (r, st) => some (r, { t with resource := st })

/-- `Resource_free`. No caller looks at the result. -/
def resourceFree (t : ResourceTable) (r : ℕ) : Except Fault ResourceTable :=
  if (t.resource.cell r).descriptors.items = [] then
    .ok { t with resource := (t.resource.free r).2 }
  else .error .assertion

/-- `ResourceList_byId` -/
def resourceListById (t : ResourceTable) (id : ℤ) : Option ℕ :=
  t.list.items.find? fun r => (t.resource.cell r).id = id

/-- `Descriptor_alloc`. It leaves `ptr` as the block had it. -/
def descriptorAlloc (t : ResourceTable) (fd : ℤ) (r p : ℕ) : Option (ℕ × ResourceTable) :=
  match t.descriptor.alloc fun c => { c with fd := fd, resource := r, pcb := p } with
  | none => none
  | some (d, st) => some (d, { t with descriptor := st })

/-- `DescriptorPtr_alloc` -/
def descriptorPtrAlloc (t : ResourceTable) (d : ℕ) : Option (ℕ × ResourceTable) :=
  match t.descriptorPtr.alloc fun _ => { descriptor := d } with
  | none => none
  | some (e, st) => some (e, { t with descriptorPtr := st })

/-- `DescriptorList_byFd` -/
def descriptorListByFd (t : ResourceTable) (h : ListHead) (fd : ℤ) : Option ℕ :=
  h.items.find? fun d => (t.descriptor.cell d).fd = fd

/-- `internal_openResource` from the tests on the resource `res` on. The result of
`DescriptorPtr_alloc` is used without a test. -/
def openDescriptor (s : Kernel) (p : ℕ) (res : Option ℕ) (type : ℤ) (openMode : BitVec 32) :
    Except Fault Kernel :=
  match res with
  | none => .ok (s.setRetvalue p dsosEresourceopen)
  | some r =>
    if (s.resources.resource.cell r).type ≠ type then
      .ok (s.setRetvalue p dsosEresourceopen)
    else if openMode &&& dsosExcl ≠ 0 ∧ (s.resources.resource.cell r).descriptors.size ≠ 0 then
      .ok (s.setRetvalue p dsosEresourcenoexcl)
    else
      match descriptorAlloc s.resources (s.pcb p).lastFd r p with
      | none => .ok (s.setRetvalue p dsosEresourcenofd)
      | some (d, t) =>
        let s := (s.setResources t).modPcb p fun c => { c with lastFd := toInt (c.lastFd + 1) }
        let alloc := descriptorPtrAlloc s.resources d
        let t := (alloc.map Prod.snd).getD s.resources
        let s := s.setResources t
        do
          let h ← listInsert (s.pcb p).descriptors (s.pcb p).descriptors.last d
          let s := s.modPcb p fun c => { c with descriptors := h }
          let e ← deref (alloc.map Prod.fst)
          let t := s.resources
          let t := { t with descriptor := t.descriptor.modify d fun c => { c with ptr := e } }
          let h ← listInsert (t.resource.cell r).descriptors
            (t.resource.cell r).descriptors.last e
          let s := s.setResources { t with
            resource := t.resource.modify r fun c => { c with descriptors := h } }
          .ok (s.setRetvalue p (s.resources.descriptor.cell d).fd)

def internalOpenResource (s : Kernel) : Except Fault Kernel := do
  let p ← deref s.running
  let id := toInt ((s.pcb p).syscallArgs 0)
  let type := toInt ((s.pcb p).syscallArgs 1)
  let openMode := BitVec.ofInt 32 ((s.pcb p).syscallArgs 2)
  let res := resourceListById s.resources id
  if openMode &&& dsosCreate ≠ 0 then
    match res with
    | some _ => .ok (s.setRetvalue p dsosEresourcecreate)
    | none =>
      match resourceAlloc s.resources id type with
      | none => .error .nullPointer
      | some (r, t) => do
        let h ← listInsert t.list t.list.last r
        openDescriptor (s.setResources { t with list := h }) p (some r) type openMode
  else openDescriptor s p res type openMode

/-- `internal_closeResource`, which unlinks and frees the descriptor as `internal_exit` does. -/
def internalCloseResource (s : Kernel) : Except Fault Kernel := do
  let p ← deref s.running
  let fd := toInt ((s.pcb p).syscallArgs 0)
  match descriptorListByFd s.resources (s.pcb p).descriptors fd with
  | none => .ok (s.setRetvalue p dsosEresourceclose)
  | some d => do
    let s ← releaseDescriptor s p d
    .ok (s.setRetvalue p 0)

def internalDestroyResource (s : Kernel) : Except Fault Kernel := do
  let p ← deref s.running
  let id := toInt ((s.pcb p).syscallArgs 0)
  match resourceListById s.resources id with
  | none => .ok (s.setRetvalue p dsosEresourceclose)
  | some r =>
    if (s.resources.resource.cell r).descriptors.size ≠ 0 then
      .ok (s.setRetvalue p dsosEresourceinuse)
    else do
      let t := s.resources
      let h ← listDetach t.list r
      let t ← resourceFree { t with list := h } r
      .ok ((s.setResources t).setRetvalue p 0)

end DisastrOS
