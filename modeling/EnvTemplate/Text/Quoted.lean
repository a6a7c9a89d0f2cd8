import EnvTemplate.Text.Hex
import EnvTemplate.Text.Unshown
import EnvTemplate.Text.Utf8

/-!
Text between double quotes, on one line and with every character visible.
-/
namespace EnvTemplate
namespace Quoted

def escape (c : Char) : Text :=
  if c = '\x00' then ['\\', '0']
  else if c = '\t' then ['\\', 't']
  else if c = '\r' then ['\\', 'r']
  else if c = '\n' then ['\\', 'n']
  else if c = '\\' then ['\\', '\\']
  else if c = '"' then ['\\', '"']
  else if Unshown.contains c then '\\' :: 'u' :: '{' :: (Hex.digits c.toNat ++ ['}'])
  else [c]

def escapeByte (b : UInt8) : Text :=
  '\\' :: 'x' :: (Hex.pair b.toNat).map Char.toUpper

def ofText (t : Text) : Text := '"' :: (t.flatMap escape ++ ['"'])

def ofBytes (b : Bytes) : Text :=
  let unit : Utf8.Unit → Text
    | .char c => escape c
    | .broken bytes => bytes.flatMap escapeByte
  '"' :: ((Utf8.units b).flatMap unit ++ ['"'])

end Quoted
end EnvTemplate
