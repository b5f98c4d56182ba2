import ClassWeaver.ClassFile.Basic
import ClassWeaver.Text.Json.Printer

namespace ClassWeaver

def Method.summary (m : Method) : Json :=
  .record
    [("signature", .string m.signature),
     ("access_flags", .nat m.accessFlags.toNat),
     ("code_length", Json.ofOption (fun (_, code) => .nat code.bytes.length) m.code),
     ("annotations", .strings m.annotations)]

def ClassFile.summary (c : ClassFile) : Json :=
  .record
    [("name", .string c.dottedName),
     ("super_name", Json.ofOption (fun name => .string (dotted name)) c.superName),
     ("interfaces", .strings (c.interfaceNames.map dotted)),
     ("version", .string s!"{c.majorVersion}.{c.minorVersion}"),
     ("constant_pool_count", .nat c.pool.count),
     ("annotations", .strings c.annotations),
     ("methods", .list (c.methods.map Method.summary)),
     ("applied_rules", .strings c.appliedRules)]

end ClassWeaver
