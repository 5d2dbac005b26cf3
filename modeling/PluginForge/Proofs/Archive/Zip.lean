import PluginForge.Archive.Zip
import Mathlib.Algebra.Group.Nat.Defs
import Mathlib.Data.List.Basic

namespace PluginForge.Archive.Zip

variable {back block bytes front rest : List UInt8} {e : Entry} {es : List Entry} {n offset width : Nat}

@[simp] theorem length_littleEndian (width n : Nat) : (littleEndian width n).length = width := by
  induction width generalizing n with
  | zero => rfl
  | succ width ih => rw [littleEndian, List.length_cons, ih]

theorem number_littleEndian (h : n < 256 ^ width) : number (littleEndian width n) = n := by
  induction width generalizing n with
  | zero => exact (Nat.lt_one_iff.1 h).symm
  | succ width ih =>
    have hrest : n / 256 < 256 ^ width := by
      rw [Nat.pow_succ] at h
      exact Nat.div_lt_of_lt_mul (Nat.mul_comm _ _ ▸ h)
    rw [littleEndian, number, ih hrest, UInt8.toNat_ofNat']
    omega

theorem fields_append (values values' : List (Nat × Nat)) :
    fields (values ++ values') = fields values ++ fields values' :=
  List.flatMap_append

theorem splitAt?_append (front back : List UInt8) :
    splitAt? front.length (front ++ back) = some (front, back) := by
  have hle : front.length ≤ (front ++ back).length := by
    rw [List.length_append]
    exact Nat.le_add_right _ _
  rw [splitAt?, if_pos hle, List.take_left, List.drop_left]

def Fitting (values : List (Nat × Nat)) : Prop :=
  ∀ value ∈ values, value.2 < 256 ^ value.1

instance (values : List (Nat × Nat)) : Decidable (Fitting values) :=
  inferInstanceAs (Decidable (∀ value ∈ values, value.2 < 256 ^ value.1))

theorem readFields_fields {values : List (Nat × Nat)} (h : Fitting values) (rest : List UInt8) :
    readFields (values.map Prod.fst) (fields values ++ rest) =
      some (values.map Prod.snd, rest) := by
  induction values with
  | nil => rfl
  | cons value values ih =>
    have hfields : fields (value :: values) ++ rest =
        littleEndian value.1 value.2 ++ (fields values ++ rest) := by
      rw [fields, List.flatMap_cons, List.append_assoc]
      rfl
    have hsplit := splitAt?_append (littleEndian value.1 value.2) (fields values ++ rest)
    rw [length_littleEndian] at hsplit
    rw [hfields, List.map_cons, readFields, hsplit]
    simp only [Option.bind_eq_bind, Option.bind_some]
    rw [ih fun value hmem => h value (List.mem_cons_of_mem _ hmem)]
    simp only [Option.bind_some, number_littleEndian (h value List.mem_cons_self), List.map_cons]
    rfl

theorem blockHeader_eq (h : block.length ≤ blockLimit) (isLast : Nat) :
    ∃ l l' c c', blockHeader isLast block = [UInt8.ofNat isLast, l, l', c, c'] ∧
      number [l, l'] = block.length ∧ number [c, c'] = blockLimit - block.length := by
  have hlimit : blockLimit < 256 ^ 2 := by decide
  exact ⟨_, _, _, _, rfl, number_littleEndian (Nat.lt_of_le_of_lt h hlimit),
    number_littleEndian (Nat.lt_of_le_of_lt (Nat.sub_le _ _) hlimit)⟩

theorem unstored?_next (h : block.length ≤ blockLimit) (rest : List UInt8) :
    unstored? (blockHeader 0 block ++ (block ++ rest)) = (unstored? rest).map (block ++ ·) := by
  obtain ⟨l, l', c, c', hheader, hlength, hcomplement⟩ := blockHeader_eq h 0
  simp only [hheader, List.cons_append, List.nil_append]
  rw [unstored?, hlength, hcomplement, if_pos ⟨Nat.add_sub_cancel' h, by simp⟩, List.take_left,
    List.drop_left]
  rfl

theorem unstored?_last (h : block.length ≤ blockLimit) :
    unstored? (blockHeader 1 block ++ block) = some block := by
  obtain ⟨l, l', c, c', hheader, hlength, hcomplement⟩ := blockHeader_eq h 1
  simp only [hheader, List.cons_append, List.nil_append]
  rw [unstored?, hlength, hcomplement, if_pos ⟨Nat.add_sub_cancel' h, Nat.le_refl _⟩]
  exact if_pos rfl

theorem unstored?_storedBlocks (bytes : List UInt8) : unstored? (storedBlocks bytes) = some bytes := by
  induction bytes using storedBlocks.induct with
  | case1 bytes h ih =>
    rw [storedBlocks, dif_pos h, List.append_assoc, unstored?_next (List.length_take_le _ _), ih]
    exact congrArg some (List.take_append_drop _ _)
  | case2 bytes h =>
    rw [storedBlocks, dif_neg h]
    exact unstored?_last (Nat.le_of_not_lt h)

theorem length_storedBlocks_le (bytes : List UInt8) :
    (storedBlocks bytes).length ≤ 2 * bytes.length + 5 := by
  have hheader (isLast : Nat) (block : List UInt8) : (blockHeader isLast block).length = 5 := rfl
  induction bytes using storedBlocks.induct with
  | case1 bytes h ih =>
    have hlimit : blockLimit = 65535 := rfl
    rw [List.length_drop] at ih
    rw [storedBlocks, dif_pos h, List.length_append, List.length_append, hheader, List.length_take]
    omega
  | case2 bytes h =>
    rw [storedBlocks, dif_neg h, List.length_append, hheader]
    omega

theorem unpack?_pack (method : Config.Compression) (content : List UInt8) :
    unpack? method (pack method content) = some content := by
  cases method with
  | stored => rfl
  | deflated => exact unstored?_storedBlocks content

theorem length_packed_le (e : Entry) : (packed e).length ≤ 2 * e.content.size + 5 := by
  rw [packed]
  cases e.method with
  | stored =>
    have hsize : (pack .stored e.content.data.toList).length = e.content.size := rfl
    omega
  | deflated => exact length_storedBlocks_le _

theorem method?_methodCode (method : Config.Compression) : method? (methodCode method) = some method := by
  cases method <;> rfl

theorem fitting_header (hname : (Text.toUtf8 e.name).size < 0x10000) (hroom : e.room < 0x100000000) :
    Fitting (header e).fields := by
  have hpacked := length_packed_le e
  have hchecksum := (checksum e.content.data.toList).toNat_lt
  have hflags : nameFlags e.name < 0x10000 := by
    rw [nameFlags]
    split <;> decide
  have hmethod : methodCode e.method < 0x10000 := by
    cases e.method <;> decide
  have hbytes : (nameBytes e).length = (Text.toUtf8 e.name).size := rfl
  rw [Entry.room] at hroom
  simp only [Fitting, Header.fields, header, List.forall_mem_cons, date]
  refine ⟨by decide, hflags, hmethod, by decide, by decide, hchecksum, ?_, ?_, ?_, by decide, ?_⟩
  · omega
  · omega
  · omega
  · exact nofun

theorem length_localPart (e : Entry) :
    (localPart e).length = 30 + (Text.toUtf8 e.name).size + (packed e).length := by
  rw [localPart, List.length_append, List.length_append]
  rfl

theorem length_directoryLine (e : Entry) (offset : Nat) :
    (directoryLine e offset).length = 46 + (Text.toUtf8 e.name).size := by
  rw [directoryLine, List.length_append]
  rfl

theorem length_le_room (e : Entry) (offset : Nat) :
    (localPart e).length + (directoryLine e offset).length ≤ e.room := by
  have hpacked := length_packed_le e
  rw [length_localPart, length_directoryLine, Entry.room]
  omega

theorem ofValues?_fields (h : Header) : Header.ofValues? (h.fields.map Prod.snd) = some h :=
  rfl

theorem readLine?_directoryLine (h : Fitting (header e).fields) (hoffset : offset < 0x100000000)
    (rest : List UInt8) :
    readLine? (directoryLine e offset ++ rest) = some (header e, nameBytes e, offset, rest) := by
  have hbegin : Fitting [(4, lineSignature), (2, 20)] := by decide
  have hend : Fitting [(2, 0), (2, 0), (2, 0), (4, 0), (4, offset)] := by
    simp only [Fitting, List.forall_mem_cons]
    exact ⟨by decide, by decide, by decide, by decide, hoffset, nofun⟩
  rw [directoryLine, fields_append, fields_append, List.append_assoc, List.append_assoc,
    List.append_assoc, readLine?]
  have hfirst := readFields_fields hbegin (fields (header e).fields ++
    (fields [(2, 0), (2, 0), (2, 0), (4, 0), (4, offset)] ++ (nameBytes e ++ rest)))
  have hsecond := readFields_fields h
    (fields [(2, 0), (2, 0), (2, 0), (4, 0), (4, offset)] ++ (nameBytes e ++ rest))
  have hthird := readFields_fields hend (nameBytes e ++ rest)
  have hname : splitAt? (header e).nameSize (nameBytes e ++ rest) = some (nameBytes e, rest) :=
    splitAt?_append _ _
  simp only [List.map_cons, List.map_nil] at hfirst hthird
  change readFields Header.widths _ = _ at hsecond
  simp only [hfirst, hsecond, hthird, hname, ofValues?_fields, Option.bind_eq_bind, Option.bind_some,
    if_true]

theorem readPacked?_localPart (h : Fitting (header e).fields) (rest : List UInt8) :
    readPacked? (header e) (nameBytes e) (localPart e ++ rest) = some (packed e) := by
  have hbegin : Fitting [(4, localSignature)] := by decide
  have hfields : fields ((4, localSignature) :: (header e).fields) =
      fields [(4, localSignature)] ++ fields (header e).fields := fields_append [_] _
  rw [localPart, hfields, List.append_assoc, List.append_assoc, List.append_assoc, readPacked?]
  have hfirst := readFields_fields hbegin
    (fields (header e).fields ++ (nameBytes e ++ (packed e ++ rest)))
  have hsecond := readFields_fields h (nameBytes e ++ (packed e ++ rest))
  have hname : splitAt? (header e).nameSize (nameBytes e ++ (packed e ++ rest)) =
      some (nameBytes e, packed e ++ rest) := splitAt?_append _ _
  have hpacked : splitAt? (header e).packedSize (packed e ++ rest) = some (packed e, rest) :=
    splitAt?_append _ _
  simp only [List.map_cons, List.map_nil] at hfirst
  change readFields Header.widths _ = _ at hsecond
  simp only [hfirst, hsecond, hname, hpacked, ofValues?_fields, Option.bind_eq_bind,
    Option.bind_some, and_self, if_true]

theorem readItem?_directoryLine (hname : (Text.toUtf8 e.name).size < 0x10000)
    (hroom : front.length + e.room < 0x100000000) (back rest : List UInt8) :
    readItem? (front ++ (localPart e ++ back)) (directoryLine e front.length ++ rest) =
      some (e, rest) := by
  have hfitting : Fitting (header e).fields := fitting_header hname (by omega)
  have hmethod : method? (header e).method = some e.method := method?_methodCode e.method
  have hcontent : unpack? e.method (packed e) = some e.content.data.toList := unpack?_pack _ _
  have htext : Text.ofUtf8? ⟨(nameBytes e).toArray⟩ = some e.name := by
    rw [nameBytes, Array.toArray_toList]
    exact Text.ofUtf8?_toUtf8 e.name
  rw [readItem?, readLine?_directoryLine hfitting (by omega)]
  simp only [Option.bind_eq_bind, Option.bind_some, List.drop_left, readPacked?_localPart hfitting,
    hmethod, hcontent, htext]
  rw [if_pos ⟨rfl, rfl⟩, Array.toArray_toList]

theorem readEntries?_directoryLines (hnames : ∀ e ∈ es, (Text.toUtf8 e.name).size < 0x10000)
    (hroom : front.length + room es < 0x100000000) (back : List UInt8) :
    readEntries? (front ++ (es.flatMap localPart ++ back)) es.length
      (directoryLines front.length es) = some es := by
  induction es generalizing front with
  | nil => rfl
  | cons e es ih =>
    obtain ⟨hname, hnames⟩ := List.forall_mem_cons.1 hnames
    have hle := length_le_room e 0
    rw [room] at hroom
    have hrest := @ih (front ++ localPart e) hnames (by rw [List.length_append]; omega)
    rw [List.length_append, List.append_assoc] at hrest
    rw [List.flatMap_cons, List.append_assoc, List.length_cons, readEntries?, directoryLines,
      readItem?_directoryLine hname (by omega)]
    simp only [Option.bind_eq_bind, Option.bind_some, hrest]
    rfl

theorem length_bytes_le (offset : Nat) (es : List Entry) :
    (es.flatMap localPart).length + (directoryLines offset es).length ≤ room es := by
  induction es generalizing offset with
  | nil => exact Nat.le_refl 0
  | cons e es ih =>
    have hfirst := length_le_room e offset
    have hrest := ih (offset + (localPart e).length)
    rw [List.flatMap_cons, directoryLines, List.length_append, List.length_append, room]
    omega

theorem read_bytes (h : Fits es) : read ⟨(Zip.bytes es).toArray⟩ = some es := by
  obtain ⟨hcount, hnames, hroom⟩ := h
  have hle := length_bytes_le 0 es
  generalize hbody : es.flatMap localPart = body at hle
  generalize hdirectory : directoryLines 0 es = directory at hle
  have hfitting : Fitting (endFields es.length directory.length body.length) := by
    simp only [Fitting, endFields, List.forall_mem_cons]
    exact ⟨by decide, by decide, by decide, hcount, hcount, by omega, by omega, by decide, nofun⟩
  have hvalues := readFields_fields hfitting []
  have hsize : (fields (endFields es.length directory.length body.length)).length = endSize := rfl
  have hbytes : Zip.bytes es =
      body ++ (directory ++ fields (endFields es.length directory.length body.length)) := by
    rw [Zip.bytes, hbody, hdirectory]
  have hwhole : ([] : List UInt8).length + room es < 0x100000000 := by
    rwa [List.length_nil, Nat.zero_add]
  have hentries := readEntries?_directoryLines hnames hwhole
    (directory ++ fields (endFields es.length directory.length body.length))
  rw [hbody, List.nil_append, List.length_nil, hdirectory] at hentries
  generalize fields (endFields es.length directory.length body.length) = last at *
  have hdrop : (body ++ (directory ++ last)).drop ((body ++ (directory ++ last)).length - endSize) =
      last := by
    rw [← hsize, ← List.append_assoc, List.length_append, Nat.add_sub_cancel, List.drop_left]
  have hlength : body.length + directory.length + endSize = (body ++ (directory ++ last)).length := by
    rw [List.length_append, List.length_append, hsize, Nat.add_assoc]
  rw [List.append_nil] at hvalues
  simp only [endFields, List.map_cons, List.map_nil] at hvalues
  rw [read, hbytes]
  simp only [hdrop, hvalues, Option.bind_eq_bind, Option.bind_some]
  rw [if_pos ⟨trivial, hlength⟩, List.drop_left, List.take_left]
  exact hentries

/-- What has been written is read back. -/
theorem understands : Understands read write where
  readBack := by
    intro entries content _ h
    rw [write] at h
    split at h
    · next hfits =>
      cases h
      exact read_bytes hfits
    · cases h
  accepts := by
    intro entries _ h
    rw [write, if_pos h]
    exact ⟨_, rfl⟩

end PluginForge.Archive.Zip
