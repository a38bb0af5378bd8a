import SistemasDistribuidos.UberTcp.Protocolo
import SistemasDistribuidos.UberTcp.Contrato
import SistemasDistribuidos.Inscripcion.Influencia
import SistemasDistribuidos.Inscripcion.Limites
import SistemasDistribuidos.Inscripcion.Respuesta
import SistemasDistribuidos.Estructura.Pasajeros
import SistemasDistribuidos.Estructura.Sesiones
import SistemasDistribuidos.Estructura.Inicializacion
import SistemasDistribuidos.Estructura.Cercania
import SistemasDistribuidos.UberRpc.Pasajeros
import SistemasDistribuidos.UberRpc.Asignacion
import SistemasDistribuidos.Cannon.Concurrente
import SistemasDistribuidos.Cannon.Cliente
import SistemasDistribuidos.SumaTmk.Progreso
import SistemasDistribuidos.Tmk.DiffHeap
import SistemasDistribuidos.Tmk.Lrc
import SistemasDistribuidos.Tmk.LockProgress
import SistemasDistribuidos.Tmk.BarrierProgress
